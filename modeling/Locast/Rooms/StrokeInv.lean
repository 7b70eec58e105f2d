import Locast.Rooms.Stroke

/-!
# The stroke bookkeeping invariant

Five collections and a counter describe one canvas.  `Ordered` ties the commit order to the
committed map, `Retained` the counter and the budgets to the kept content, and `Bookkept` adds how
the content follows the pending and the committed strokes and the bounds on the open ones.  Each
mutator of `StrokeBookkeeping` has one lemma that says what it does to a bookkeeping with the
invariant; in particular none of them underflows.
-/

namespace Locast.Rooms.StrokeBookkeeping

open Locast.Lib Locast.Protocol

/-- `committedOrder` lists the keys of `committed` exactly once each. -/
structure Ordered (s : StrokeBookkeeping) : Prop where
  nodup : s.committedOrder.Nodup
  mem_iff : ∀ id, id ∈ s.committedOrder ↔ id ∈ s.committed
  length_le : s.committedOrder.length ≤ maxCommittedStrokes

/-- The points held over all content. -/
def heldPoints (s : StrokeBookkeeping) : ℕ := s.content.sumBy fun c => c.points.length

/-- The points held for one stroke. -/
def pointsOf (s : StrokeBookkeeping) (id : Uuid) : ℕ :=
  (s.content.get id).elim 0 fun c => c.points.length

/-- The counter counts the held points, and the content is within its budgets. -/
structure Retained (s : StrokeBookkeeping) : Prop where
  count_eq : s.retainedPoints = s.heldPoints
  count_le : s.retainedPoints ≤ maxRetainedPoints
  points_le : ∀ id c, s.content.get id = some c → c.points.length ≤ maxRetainedPointsPerStroke
  dropped_empty : ∀ id c, s.content.get id = some c → c.dropped = true → c.points = []

/-- **The bookkeeping invariant.** -/
structure Bookkept (s : StrokeBookkeeping) : Prop where
  ordered : s.Ordered
  retained : s.Retained
  not_committed_of_pending : ∀ id, id ∈ s.pending → id ∉ s.committed
  tracked : ∀ id, id ∈ s.content →
    id ∈ s.committed ∨ ∃ stroke, s.pending.get id = some stroke ∧ stroke.cleared = false
  user_le : ∀ user, s.userOpen user ≤ maxOpenStrokesPerUser
  room_le : s.pending.size ≤ maxOpenStrokesPerRoom

/-! ### Forgetting and freeing content -/

variable {s : StrokeBookkeeping}

lemma Retained.pointsOf_le (h : s.Retained) (id : Uuid) : s.pointsOf id ≤ s.retainedPoints := by
  rw [h.count_eq, pointsOf]
  cases hc : s.content.get id with
  | none => exact Nat.zero_le _
  | some c => exact AList.le_sumBy (fun c : StrokeContent => c.points.length) hc

/-- What `forget_content` does when the counter is right. -/
def forgotten (s : StrokeBookkeeping) (id : Uuid) : StrokeBookkeeping :=
  { s with content := s.content.erase id, retainedPoints := s.retainedPoints - s.pointsOf id }

lemma forgetContent_eq (h : s.Retained) (id : Uuid) :
    s.forgetContent id = some (s.forgotten id) := by
  have hle := h.pointsOf_le id
  unfold forgetContent forgotten
  unfold pointsOf at hle ⊢
  cases hc : s.content.get id with
  | none =>
    have : id ∉ s.content := AList.get_eq_none.1 hc
    simp [AList.erase_of_notMem this]
  | some c =>
    simp only [hc, Option.elim_some] at hle
    simp [checkedSub_of_le hle]

lemma Retained.forgotten (h : s.Retained) (id : Uuid) : (s.forgotten id).Retained where
  count_eq := by
    have hsum : s.heldPoints = s.pointsOf id + (s.forgotten id).heldPoints := by
      unfold heldPoints pointsOf StrokeBookkeeping.forgotten
      cases hc : s.content.get id with
      | none => simp [AList.erase_of_notMem (AList.get_eq_none.1 hc)]
      | some c => exact AList.sumBy_of_get _ hc
    change s.retainedPoints - s.pointsOf id = _
    rw [h.count_eq, hsum, Nat.add_sub_cancel_left]
  count_le := (Nat.sub_le _ _).trans h.count_le
  points_le := by
    intro k c hk
    rw [StrokeBookkeeping.forgotten, AList.get_erase] at hk
    split at hk
    · cases hk
    · exact h.points_le k c hk
  dropped_empty := by
    intro k c hk
    rw [StrokeBookkeeping.forgotten, AList.get_erase] at hk
    split at hk
    · cases hk
    · exact h.dropped_empty k c hk

/-- What `drop_content` followed by `mark_dropped` does when the counter is right. -/
def freed (s : StrokeBookkeeping) (id : Uuid) : StrokeBookkeeping :=
  match s.content.get id with
  | none => s
  | some c => { s with
      content := s.content.insert id { c with points := [], dropped := true }
      retainedPoints := s.retainedPoints - c.points.length }

lemma dropContent_bind (h : s.Retained) (id : Uuid) {α : Type}
    (k g : StrokeBookkeeping → Option α)
    (hk : ∀ t : StrokeBookkeeping, k t = g (t.markDropped id)) :
    (s.dropContent id >>= k) = g (s.freed id) := by
  have hle := h.pointsOf_le id
  unfold dropContent freed
  unfold pointsOf at hle
  cases hc : s.content.get id with
  | none => simp [hk, markDropped, hc]
  | some c =>
    simp only [hc, Option.elim_some] at hle
    simp [checkedSub_of_le hle, hk, markDropped]

@[simp] lemma freed_pending (id : Uuid) : (s.freed id).pending = s.pending := by
  unfold freed; split <;> rfl

@[simp] lemma freed_committed (id : Uuid) : (s.freed id).committed = s.committed := by
  unfold freed; split <;> rfl

@[simp] lemma freed_committedOrder (id : Uuid) :
    (s.freed id).committedOrder = s.committedOrder := by
  unfold freed; split <;> rfl

@[simp] lemma freed_evictOrder (id : Uuid) : (s.freed id).evictOrder = s.evictOrder := by
  unfold freed; split <;> rfl

@[simp] lemma freed_seq (id : Uuid) : (s.freed id).seq = s.seq := by
  unfold freed; split <;> rfl

lemma freed_get (id k : Uuid) : (s.freed id).content.get k =
    if k = id then (s.content.get id).map fun c => { c with points := [], dropped := true }
    else s.content.get k := by
  unfold freed
  cases hc : s.content.get id with
  | none =>
    by_cases hk : k = id
    · simp [hk, hc]
    · simp [hk]
  | some c => simp [AList.get_insert]

@[simp] lemma mem_freed_content (id k : Uuid) : k ∈ (s.freed id).content ↔ k ∈ s.content := by
  rw [AList.mem_iff_get, AList.mem_iff_get, freed_get]
  split <;> simp_all

lemma freed_retainedPoints_le (id : Uuid) : (s.freed id).retainedPoints ≤ s.retainedPoints := by
  unfold freed
  split
  · exact le_rfl
  · exact Nat.sub_le _ _

lemma Retained.freed (h : s.Retained) (id : Uuid) : (s.freed id).Retained where
  count_eq := by
    cases hc : s.content.get id with
    | none =>
      rw [StrokeBookkeeping.freed, hc]
      exact h.count_eq
    | some c =>
      have hsum := AList.sumBy_of_get (fun c : StrokeContent => c.points.length) hc
      have hcount := h.count_eq
      unfold heldPoints at hcount ⊢
      simp only [StrokeBookkeeping.freed, hc, AList.sumBy_insert, List.length_nil, zero_add]
      omega
  count_le := (freed_retainedPoints_le id).trans h.count_le
  points_le := by
    intro k c hk
    rw [freed_get] at hk
    split at hk
    · obtain ⟨c', -, rfl⟩ := Option.map_eq_some_iff.1 hk
      exact Nat.zero_le _
    · exact h.points_le k c hk
  dropped_empty := by
    intro k c hk hd
    rw [freed_get] at hk
    split at hk
    · obtain ⟨c', -, rfl⟩ := Option.map_eq_some_iff.1 hk
      rfl
    · exact h.dropped_empty k c hk hd

/-! ### Committing -/

lemma popOverCap_of_le (committed : AMap Uuid Uuid) {order : List Uuid}
    (h : order.length ≤ maxCommittedStrokes) :
    popOverCap committed order = (committed, order, []) := by
  cases order with
  | nil => rfl
  | cons old rest => rw [popOverCap, if_neg (by omega)]

lemma popOverCap_of_eq (committed : AMap Uuid Uuid) (old : Uuid) {rest : List Uuid}
    (h : rest.length = maxCommittedStrokes) :
    popOverCap committed (old :: rest) = (committed.erase old, rest, [old]) := by
  rw [popOverCap, if_pos (by simp [h]), popOverCap_of_le _ h.le]

/-- What `commit` does to a stroke that is not committed yet: at the cap, and only there, the oldest
stroke is forgotten. -/
structure Commits (s : StrokeBookkeeping) (id owner : Uuid) (gone : List Uuid)
    (s' : StrokeBookkeeping) : Prop where
  pending_eq : s'.pending = s.pending
  seq_eq : s'.seq = s.seq
  evictOrder_eq : s'.evictOrder = s.evictOrder
  order_eq : s.committedOrder ++ [id] = gone ++ s'.committedOrder
  committed_get : ∀ k, s'.committed.get k =
    if k ∈ gone then none else if k = id then some owner else s.committed.get k
  content_get : ∀ k, s'.content.get k = if k ∈ gone then none else s.content.get k
  not_gone : id ∉ gone
  full : ∀ k ∈ gone, s.committedOrder.head? = some k ∧
    s.committedOrder.length = maxCommittedStrokes
  ordered : s'.Ordered
  retained : s'.Retained

/-- The bookkeeping with one more committed stroke, before the cap is applied. -/
def pushed (s : StrokeBookkeeping) (id owner : Uuid) : StrokeBookkeeping :=
  { s with committed := s.committed.insert id owner, committedOrder := s.committedOrder ++ [id] }

/-- The oldest committed stroke taken out of the committed record. -/
def popped (s : StrokeBookkeeping) (old : Uuid) (rest : List Uuid) : StrokeBookkeeping :=
  { s with committed := s.committed.erase old, committedOrder := rest }

lemma commit_of_lt {id : Uuid} (hid : id ∉ s.committed) (owner : Uuid)
    (hlt : s.committedOrder.length < maxCommittedStrokes) :
    s.commit id owner = some (s.pushed id owner, []) := by
  have hlen : (s.committedOrder ++ [id]).length ≤ maxCommittedStrokes := by
    simpa using Nat.succ_le_of_lt hlt
  have hpop := popOverCap_of_le (s.committed.insert id owner) hlen
  simp [commit, hid, hpop, pushed]

lemma commit_of_full (hr : s.Retained) {id : Uuid} (hid : id ∉ s.committed) (owner : Uuid)
    {old : Uuid} {rest : List Uuid} (hsplit : s.committedOrder = old :: rest)
    (hrest : (rest ++ [id]).length = maxCommittedStrokes) :
    s.commit id owner =
      some ((((s.pushed id owner).popped old (rest ++ [id])).forgotten old), [old]) := by
  have hpop := popOverCap_of_eq (s.committed.insert id owner) old hrest
  have hr' : ((s.pushed id owner).popped old (rest ++ [id])).Retained :=
    ⟨hr.count_eq, hr.count_le, hr.points_le, hr.dropped_empty⟩
  have hforget := forgetContent_eq hr' old
  unfold popped pushed at hforget ⊢
  simp only [commit, hid, if_false, hsplit, List.cons_append, hpop, List.foldlM_cons,
    List.foldlM_nil, hforget, Option.bind_eq_bind, Option.bind_some]
  rfl

/-- The order after a push is that of the committed map after the insertion. -/
lemma Ordered.pushed (ho : s.Ordered) {id : Uuid} (hid : id ∉ s.committed) (owner : Uuid) :
    (s.pushed id owner).committedOrder.Nodup ∧
      ∀ k, k ∈ (s.pushed id owner).committedOrder ↔ k ∈ (s.pushed id owner).committed := by
  constructor
  · refine List.nodup_append.2 ⟨ho.nodup, List.nodup_singleton _, ?_⟩
    rintro a ha b hb rfl
    rw [List.mem_singleton.1 hb, ho.mem_iff] at ha
    exact hid ha
  · intro k
    rw [StrokeBookkeeping.pushed, List.mem_append, List.mem_singleton, ho.mem_iff, AList.mem_insert,
      or_comm]

theorem commit_spec (ho : s.Ordered) (hr : s.Retained) {id : Uuid} (hid : id ∉ s.committed)
    (owner : Uuid) :
    ∃ s' gone, s.commit id owner = some (s', gone) ∧ s.Commits id owner gone s' := by
  obtain ⟨hnodup, hmem⟩ := ho.pushed hid owner
  have hr₁ : (s.pushed id owner).Retained :=
    ⟨hr.count_eq, hr.count_le, hr.points_le, hr.dropped_empty⟩
  rcases ho.length_le.lt_or_eq with hlt | hfull
  · refine ⟨_, _, commit_of_lt hid owner hlt, ?_⟩
    exact {
      pending_eq := rfl
      seq_eq := rfl
      evictOrder_eq := rfl
      order_eq := rfl
      committed_get := fun k => by simp [pushed, AList.get_insert]
      content_get := fun k => by simp [pushed]
      not_gone := by simp
      full := by simp
      ordered := ⟨hnodup, hmem, by simpa [pushed] using Nat.succ_le_of_lt hlt⟩
      retained := hr₁ }
  · obtain ⟨old, rest, hsplit⟩ : ∃ old rest, s.committedOrder = old :: rest := by
      cases horder : s.committedOrder with
      | nil => simp [horder, maxCommittedStrokes] at hfull
      | cons old rest => exact ⟨old, rest, rfl⟩
    have hrest : (rest ++ [id]).length = maxCommittedStrokes := by
      rw [← hfull, hsplit]
      simp
    have horder : (s.pushed id owner).committedOrder = old :: (rest ++ [id]) := by
      rw [pushed, hsplit, List.cons_append]
    rw [horder, List.nodup_cons] at hnodup
    have hr₂ : ((s.pushed id owner).popped old (rest ++ [id])).Retained :=
      ⟨hr₁.count_eq, hr₁.count_le, hr₁.points_le, hr₁.dropped_empty⟩
    refine ⟨_, _, commit_of_full hr hid owner hsplit hrest, ?_⟩
    exact {
      pending_eq := rfl
      seq_eq := rfl
      evictOrder_eq := rfl
      order_eq := horder
      committed_get := fun k => by
        simp [forgotten, popped, pushed, AList.get_erase, AList.get_insert]
      content_get := fun k => by simp [forgotten, popped, pushed, AList.get_erase]
      not_gone := by
        rintro h
        rw [List.mem_singleton.1 h] at hnodup
        exact hnodup.1 (by simp)
      full := fun k hk => by
        rw [List.mem_singleton.1 hk, hsplit]
        exact ⟨rfl, hsplit ▸ hfull⟩
      ordered := by
        refine ⟨hnodup.2, fun k => ?_, hrest.le⟩
        change k ∈ rest ++ [id] ↔ k ∈ (s.pushed id owner).committed.erase old
        rw [AList.mem_erase, ← hmem, horder, List.mem_cons]
        constructor
        · intro h
          exact ⟨fun e => hnodup.1 (e ▸ h), Or.inr h⟩
        · rintro ⟨hne, rfl | h⟩
          · exact absurd rfl hne
          · exact h
      retained := hr₂.forgotten old }

/-! ### Evicting content -/

lemma holdsPoints_iff {id : Uuid} : s.holdsPoints id = true ↔
    id ∈ s.committed ∧ ∃ c, s.content.get id = some c ∧ c.dropped = false ∧ c.points ≠ [] := by
  unfold holdsPoints
  cases s.content.get id <;> simp

lemma makeRoom_of_lt (h : s.retainedPoints < maxRetainedPoints) (queue : List Uuid) :
    s.makeRoom queue = some (true, { s with evictOrder := queue }) := by
  cases queue with
  | nil => simp [makeRoom, h]
  | cons id queue => rw [makeRoom, if_pos h]

/-- A victim holds a point, so freeing one victim is enough. -/
lemma freed_retainedPoints_lt (h : s.Retained) {id : Uuid} (hid : s.holdsPoints id = true) :
    (s.freed id).retainedPoints < maxRetainedPoints := by
  obtain ⟨-, c, hc, -, hne⟩ := holdsPoints_iff.1 hid
  have hpos : 0 < c.points.length := List.length_pos_iff.2 hne
  have hle := h.pointsOf_le id
  have hmax := h.count_le
  simp only [pointsOf, hc, Option.elim_some] at hle
  simp only [freed, hc]
  omega

/-- **Eviction.**  With the budget full, the first id of the queue that is a committed stroke
holding points is freed; when there is none, the queue is used up. -/
theorem makeRoom_of_full (h : s.Retained) (hfull : ¬ s.retainedPoints < maxRetainedPoints)
    (queue : List Uuid) :
    s.makeRoom queue = match queue.find? s.holdsPoints with
      | none => some (false, { s with evictOrder := [] })
      | some victim => some (true,
          { s.freed victim with evictOrder := (queue.dropWhile fun id => !s.holdsPoints id).tail })
    := by
  induction queue with
  | nil => simp [makeRoom, hfull]
  | cons id queue ih =>
    cases hid : s.holdsPoints id with
    | true =>
      have hlt := freed_retainedPoints_lt h hid
      rw [makeRoom, if_neg hfull, if_pos hid,
        dropContent_bind h id _ (fun t => t.makeRoom queue) fun _ => rfl, makeRoom_of_lt hlt]
      simp [hid]
    | false =>
      rw [makeRoom, if_neg hfull, if_neg (by simp [hid]), ih]
      simp [hid]

/-- The content entry of a stroke with one more point. -/
def appended (s : StrokeBookkeeping) (point : StrokePointPayload) (c : StrokeContent) :
    StrokeBookkeeping :=
  { s with
    content := s.content.insert point.strokeId { c with points := c.points ++
      [{ x := point.x, y := point.y, pressure := point.pressure, tsMs := point.tsMs }] }
    retainedPoints := s.retainedPoints + 1 }

lemma Retained.appended (h : s.Retained) {point : StrokePointPayload} {c : StrokeContent}
    (hc : s.content.get point.strokeId = some c) (hd : c.dropped = false)
    (hlen : c.points.length < maxRetainedPointsPerStroke)
    (hroom : s.retainedPoints < maxRetainedPoints) : (s.appended point c).Retained where
  count_eq := by
    have hsum := AList.sumBy_of_get (fun c : StrokeContent => c.points.length) hc
    have hcount := h.count_eq
    unfold heldPoints at hcount ⊢
    simp only [StrokeBookkeeping.appended, AList.sumBy_insert, List.length_append,
      List.length_singleton]
    omega
  count_le := hroom
  points_le := by
    intro k c' hk
    rw [StrokeBookkeeping.appended, AList.get_insert] at hk
    split at hk
    · cases hk
      simpa using Nat.succ_le_of_lt hlen
    · exact h.points_le k c' hk
  dropped_empty := by
    intro k c' hk hd'
    rw [StrokeBookkeeping.appended, AList.get_insert] at hk
    split at hk
    · cases hk
      rw [hd] at hd'
      cases hd'
    · exact h.dropped_empty k c' hk hd'

/-- What an accepted point does: nothing when its stroke's content is not kept, else it frees the
stroke itself at the per-stroke limit, appends while there is room, and otherwise first frees the
victim of the eviction queue, or the stroke itself when there is none. -/
inductive KeepsPoint (s : StrokeBookkeeping) (point : StrokePointPayload) :
    StrokeBookkeeping → Prop
  | unkept (h : ∀ c, s.content.get point.strokeId = some c → c.dropped = true) :
    KeepsPoint s point s
  | atLimit (h : maxRetainedPointsPerStroke ≤ s.pointsOf point.strokeId) :
      KeepsPoint s point (s.freed point.strokeId)
  | append (c : StrokeContent) (hc : s.content.get point.strokeId = some c) (hd : c.dropped = false)
      (hlen : c.points.length < maxRetainedPointsPerStroke)
      (hroom : s.retainedPoints < maxRetainedPoints) : KeepsPoint s point (s.appended point c)
  | evict (c : StrokeContent) (hc : s.content.get point.strokeId = some c) (hd : c.dropped = false)
      (hlen : c.points.length < maxRetainedPointsPerStroke)
      (hfull : ¬ s.retainedPoints < maxRetainedPoints) (victim : Uuid)
      (hv : s.evictOrder.find? s.holdsPoints = some victim) (hne : point.strokeId ≠ victim) :
      KeepsPoint s point ({ s.freed victim with evictOrder :=
        (s.evictOrder.dropWhile fun id => !s.holdsPoints id).tail }.appended point c)
  | giveUp (c : StrokeContent) (hc : s.content.get point.strokeId = some c) (hd : c.dropped = false)
      (hlen : c.points.length < maxRetainedPointsPerStroke)
      (hfull : ¬ s.retainedPoints < maxRetainedPoints)
      (hv : s.evictOrder.find? s.holdsPoints = none) :
      KeepsPoint s point ({ s with evictOrder := [] }.freed point.strokeId)

theorem recordPoint_spec (h : s.Retained) (point : StrokePointPayload)
    (hpoint : point.strokeId ∉ s.committed) :
    ∃ s', s.recordPoint point = some s' ∧ s.KeepsPoint point s' := by
  cases hc : s.content.get point.strokeId with
  | none => exact ⟨s, by simp [recordPoint, hc], .unkept fun c h' => by simp [hc] at h'⟩
  | some c =>
    by_cases hd : c.dropped = true
    · exact ⟨s, by simp [recordPoint, hc, hd], .unkept fun c' h' => by
        rw [hc] at h'
        exact Option.some.inj h' ▸ hd⟩
    by_cases hlen : maxRetainedPointsPerStroke ≤ c.points.length
    · refine ⟨_, ?_, .atLimit (by simpa [pointsOf, hc] using hlen)⟩
      simp only [recordPoint, hc, hd, hlen, if_true]
      exact dropContent_bind h _ _ some fun _ => rfl
    have hd' : c.dropped = false := by simpa using hd
    by_cases hroom : s.retainedPoints < maxRetainedPoints
    · refine ⟨_, ?_, .append c hc hd' (by omega) hroom⟩
      simp [recordPoint, hc, hd, hlen, makeRoom_of_lt hroom, appended]
    have hmake := makeRoom_of_full h hroom s.evictOrder
    cases hv : s.evictOrder.find? s.holdsPoints with
    | none =>
      rw [hv] at hmake
      refine ⟨_, ?_, .giveUp c hc hd' (by omega) hroom hv⟩
      have h' : Retained { s with evictOrder := [] } :=
        ⟨h.count_eq, h.count_le, h.points_le, h.dropped_empty⟩
      simp only [recordPoint, hc, hd, hlen, hmake, if_false, Option.bind_eq_bind, Option.bind_some,
        Bool.false_eq_true]
      exact dropContent_bind h' _ _ some fun _ => rfl
    | some victim =>
      rw [hv] at hmake
      have hne : point.strokeId ≠ victim := by
        rintro rfl
        exact hpoint (holdsPoints_iff.1 (List.find?_some hv)).1
      refine ⟨_, ?_, .evict c hc hd' (by omega) hroom victim hv hne⟩
      simp [recordPoint, hc, hd, hlen, hmake, freed_get, hne, appended]

/-! ### The invariant under each mutator -/

/-- A change of the content alone keeps the invariant when the new content is within its budgets and
no entry is added. -/
lemma Bookkept.of_content (h : s.Bookkept) {s' : StrokeBookkeeping} (hp : s'.pending = s.pending)
    (hc : s'.committed = s.committed) (ho : s'.committedOrder = s.committedOrder)
    (hr : s'.Retained) (hk : ∀ k, k ∈ s'.content → k ∈ s.content) : s'.Bookkept where
  ordered := ⟨ho ▸ h.ordered.nodup, by rw [ho, hc]; exact h.ordered.mem_iff,
    ho ▸ h.ordered.length_le⟩
  retained := hr
  not_committed_of_pending := by rw [hp, hc]; exact h.not_committed_of_pending
  tracked := by rw [hp, hc]; exact fun id hid => h.tracked id (hk id hid)
  user_le := by unfold userOpen; rw [hp]; exact h.user_le
  room_le := hp ▸ h.room_le

theorem Bookkept.keepsPoint (h : s.Bookkept) {point : StrokePointPayload} {s' : StrokeBookkeeping}
    (hs : s.KeepsPoint point s') : s'.Bookkept := by
  -- the entry that gets the point was there already
  have hmem : ∀ (t : StrokeBookkeeping) (c : StrokeContent),
      s.content.get point.strokeId = some c → (∀ k, k ∈ t.content ↔ k ∈ s.content) →
      ∀ k, k ∈ (t.appended point c).content → k ∈ s.content := by
    intro t c hc ht k hk
    rcases (AList.mem_insert _).1 hk with rfl | hk
    · exact AList.mem_of_get hc
    · exact (ht k).1 hk
  cases hs with
  | unkept => exact h
  | atLimit =>
    exact h.of_content (by simp) (by simp) (by simp) (h.retained.freed _) fun k hk => by
      simpa using hk
  | append c hc hd hlen hroom =>
    exact h.of_content rfl rfl rfl (h.retained.appended hc hd hlen hroom)
      (hmem s c hc fun _ => Iff.rfl)
  | evict c hc hd hlen hfull victim hv hne =>
    have hr := h.retained.freed victim
    have hlt := freed_retainedPoints_lt h.retained (List.find?_some hv)
    have hr' : Retained { s.freed victim with
        evictOrder := (s.evictOrder.dropWhile fun id => !s.holdsPoints id).tail } :=
      ⟨hr.count_eq, hr.count_le, hr.points_le, hr.dropped_empty⟩
    have hc' : (s.freed victim).content.get point.strokeId = some c := by
      rw [freed_get, if_neg hne, hc]
    exact h.of_content (freed_pending victim) (freed_committed victim) (freed_committedOrder victim)
      (hr'.appended hc' hd hlen hlt) (hmem _ c hc fun k => mem_freed_content victim k)
  | giveUp c hc hd hlen hfull hv =>
    have hr : Retained { s with evictOrder := [] } :=
      ⟨h.retained.count_eq, h.retained.count_le, h.retained.points_le, h.retained.dropped_empty⟩
    exact h.of_content (by simp) (by simp) (by simp) (hr.freed _) fun k hk => by simpa using hk

/-- A new room's bookkeeping. -/
theorem Bookkept.new (nowMs : ℕ) : (StrokeBookkeeping.new nowMs).Bookkept where
  ordered := ⟨List.nodup_nil, fun id => by simp [StrokeBookkeeping.new, empty], Nat.zero_le _⟩
  retained := ⟨rfl, Nat.zero_le _, fun id c h => by simp [StrokeBookkeeping.new, empty] at h,
    fun id c h => by simp [StrokeBookkeeping.new, empty] at h⟩
  not_committed_of_pending := fun id h => by simp [StrokeBookkeeping.new, empty] at h
  tracked := fun id h => by simp [StrokeBookkeeping.new, empty] at h
  user_le := fun user => Nat.zero_le _
  room_le := Nat.zero_le _

theorem Bookkept.clearAll (h : s.Bookkept) : s.clearAll.2.Bookkept where
  ordered := ⟨List.nodup_nil, fun id => by simp [StrokeBookkeeping.clearAll], Nat.zero_le _⟩
  retained := ⟨rfl, Nat.zero_le _, fun id c h => by simp [StrokeBookkeeping.clearAll] at h,
    fun id c h => by simp [StrokeBookkeeping.clearAll] at h⟩
  not_committed_of_pending := fun id _ => by simp [StrokeBookkeeping.clearAll]
  tracked := fun id h => by simp [StrokeBookkeeping.clearAll] at h
  user_le := fun user => by
    have hcount := AList.countBy_mapVals (fun stroke : PendingStroke => stroke.senderId == user)
      (fun stroke => { stroke with cleared := true }) s.pending fun _ => rfl
    exact hcount.trans_le (h.user_le user)
  room_le := by
    rw [StrokeBookkeeping.clearAll, AList.size_mapVals]
    exact h.room_le

/-- A committed stroke undone. -/
def undone (s : StrokeBookkeeping) (id : Uuid) : StrokeBookkeeping :=
  { s with
    committed := s.committed.erase id
    committedOrder := s.committedOrder.filter (· ≠ id)
    content := s.content.erase id
    retainedPoints := s.retainedPoints - s.pointsOf id }

lemma removeCommitted_eq (h : s.Retained) {id : Uuid} (hid : id ∈ s.committed) :
    s.removeCommitted id = some (true, s.undone id) := by
  have h' : Retained { s with
      committed := s.committed.erase id, committedOrder := s.committedOrder.filter (· ≠ id) } :=
    ⟨h.count_eq, h.count_le, h.points_le, h.dropped_empty⟩
  rw [removeCommitted, if_pos hid, forgetContent_eq h']
  rfl

theorem Bookkept.undone (h : s.Bookkept) (id : Uuid) : (s.undone id).Bookkept where
  ordered := by
    refine ⟨h.ordered.nodup.filter _, fun k => ?_, (List.length_filter_le _ _).trans
      h.ordered.length_le⟩
    simp [StrokeBookkeeping.undone, AList.mem_erase, h.ordered.mem_iff, and_comm]
  retained := by
    have hr := h.retained.forgotten id
    exact ⟨hr.count_eq, hr.count_le, hr.points_le, hr.dropped_empty⟩
  not_committed_of_pending := fun k hk hc =>
    h.not_committed_of_pending k hk (AList.mem_erase.1 hc).2
  tracked := by
    intro k hk
    obtain ⟨hne, hk⟩ := AList.mem_erase.1 hk
    exact (h.tracked k hk).imp_left fun hc => AList.mem_erase.2 ⟨hne, hc⟩
  user_le := h.user_le
  room_le := h.room_le

/-! ### Ending a stroke -/

/-- The bookkeeping with one stroke no longer open. -/
def closed (s : StrokeBookkeeping) (id : Uuid) : StrokeBookkeeping :=
  { s with pending := s.pending.erase id }

lemma userOpen_closed_le (s : StrokeBookkeeping) (id user : Uuid) :
    (s.closed id).userOpen user ≤ s.userOpen user := AList.countBy_erase_le _ _ _

lemma size_closed_le (s : StrokeBookkeeping) (id : Uuid) :
    (s.closed id).pending.size ≤ s.pending.size := AList.size_erase_le _ _

/-- A cleared stroke ends by being forgotten. -/
theorem Bookkept.closed_forgotten (h : s.Bookkept) (id : Uuid) :
    ((s.closed id).forgotten id).Bookkept where
  ordered := ⟨h.ordered.nodup, h.ordered.mem_iff, h.ordered.length_le⟩
  retained := by
    have hr := h.retained.forgotten id
    exact ⟨hr.count_eq, hr.count_le, hr.points_le, hr.dropped_empty⟩
  not_committed_of_pending := fun k hk => h.not_committed_of_pending k (AList.mem_erase.1 hk).2
  tracked := by
    intro k hk
    obtain ⟨hne, hk⟩ := AList.mem_erase.1 hk
    refine (h.tracked k hk).imp_right ?_
    rintro ⟨stroke, hs, hcl⟩
    exact ⟨stroke, by rw [forgotten, closed, AList.get_erase, if_neg hne, hs], hcl⟩
  user_le := fun user => (userOpen_closed_le s id user).trans (h.user_le user)
  room_le := (size_closed_le s id).trans h.room_le

/-- The bookkeeping with the `DRAW_END` time of a stroke set. -/
lemma recordEnd_content (s : StrokeBookkeeping) (id : Uuid) (tsMs : ℤ) (k : Uuid) :
    (s.recordEnd id tsMs).content.get k =
      if k = id then (s.content.get id).map fun c => { c with endTsMs := some tsMs }
      else s.content.get k := by
  unfold recordEnd
  cases hc : s.content.get id with
  | none =>
    by_cases hk : k = id
    · simp [hk, hc]
    · simp [hk]
  | some c => simp [AList.get_insert]

lemma mem_recordEnd_content (s : StrokeBookkeeping) (id : Uuid) (tsMs : ℤ) (k : Uuid) :
    k ∈ (s.recordEnd id tsMs).content ↔ k ∈ s.content := by
  rw [AList.mem_iff_get, AList.mem_iff_get, recordEnd_content]
  split <;> simp_all

lemma recordEnd_frame (s : StrokeBookkeeping) (id : Uuid) (tsMs : ℤ) :
    (s.recordEnd id tsMs).pending = s.pending ∧ (s.recordEnd id tsMs).committed = s.committed ∧
      (s.recordEnd id tsMs).committedOrder = s.committedOrder ∧
      (s.recordEnd id tsMs).retainedPoints = s.retainedPoints := by
  unfold recordEnd
  cases s.content.get id <;> exact ⟨rfl, rfl, rfl, rfl⟩

@[simp] lemma recordEnd_seq (s : StrokeBookkeeping) (id : Uuid) (tsMs : ℤ) :
    (s.recordEnd id tsMs).seq = s.seq := by
  unfold recordEnd
  cases s.content.get id <;> rfl

lemma Retained.recordEnd (h : s.Retained) (id : Uuid) (tsMs : ℤ) :
    (s.recordEnd id tsMs).Retained where
  count_eq := by
    cases hc : s.content.get id with
    | none =>
      unfold StrokeBookkeeping.recordEnd
      rw [hc]
      exact h.count_eq
    | some c =>
      have hsum := AList.sumBy_of_get (fun c : StrokeContent => c.points.length) hc
      have hcount := h.count_eq
      unfold heldPoints at hcount ⊢
      simp only [StrokeBookkeeping.recordEnd, hc, AList.sumBy_insert]
      omega
  count_le := (recordEnd_frame s id tsMs).2.2.2 ▸ h.count_le
  points_le := by
    intro k c hk
    rw [recordEnd_content] at hk
    split at hk
    · obtain ⟨c', hc', rfl⟩ := Option.map_eq_some_iff.1 hk
      exact h.points_le _ c' hc'
    · exact h.points_le k c hk
  dropped_empty := by
    intro k c hk hd
    rw [recordEnd_content] at hk
    split at hk
    · obtain ⟨c', hc', rfl⟩ := Option.map_eq_some_iff.1 hk
      exact h.dropped_empty _ c' hc' hd
    · exact h.dropped_empty k c hk hd

/-- An open stroke that is not cleared ends: it is committed, and its end is recorded. -/
def Ends (s : StrokeBookkeeping) (id owner : Uuid) (tsMs : ℤ) (s' : StrokeBookkeeping) : Prop :=
  ∃ t gone, (s.closed id).Commits id owner gone t ∧ s' = t.recordEnd id tsMs

theorem exists_ends (h : s.Bookkept) {id : Uuid} (hid : id ∈ s.pending) (owner : Uuid) (tsMs : ℤ) :
    ∃ t gone, (s.closed id).commit id owner = some (t, gone) ∧
      s.Ends id owner tsMs (t.recordEnd id tsMs) := by
  have ho : (s.closed id).Ordered := ⟨h.ordered.nodup, h.ordered.mem_iff, h.ordered.length_le⟩
  have hr : (s.closed id).Retained :=
    ⟨h.retained.count_eq, h.retained.count_le, h.retained.points_le, h.retained.dropped_empty⟩
  obtain ⟨t, gone, hcommit, hc⟩ := commit_spec ho hr (h.not_committed_of_pending id hid) owner
  exact ⟨t, gone, hcommit, t, gone, hc, rfl⟩

theorem Bookkept.ends (h : s.Bookkept) {id owner : Uuid} {tsMs : ℤ} {s' : StrokeBookkeeping}
    (hs : s.Ends id owner tsMs s') : s'.Bookkept := by
  obtain ⟨t, gone, hc, rfl⟩ := hs
  obtain ⟨hp, hcom, ho, -⟩ := recordEnd_frame t id tsMs
  have hpending : (t.recordEnd id tsMs).pending = (s.closed id).pending := hp.trans hc.pending_eq
  have hmem : ∀ k, k ∈ t.committed → k = id ∨ k ∈ s.committed := by
    intro k hk
    rw [AList.mem_iff_get, hc.committed_get] at hk
    split at hk
    · cases hk
    · split at hk
      · exact Or.inl ‹_›
      · exact Or.inr (AList.mem_iff_get.2 hk)
  refine
    { ordered := ⟨ho ▸ hc.ordered.nodup, by rw [ho, hcom]; exact hc.ordered.mem_iff,
        ho ▸ hc.ordered.length_le⟩
      retained := hc.retained.recordEnd id tsMs
      not_committed_of_pending := ?_
      tracked := ?_
      user_le := fun user => ?_
      room_le := ?_ }
  · rw [hpending, hcom]
    intro k hk hk'
    obtain ⟨hne, hk⟩ := AList.mem_erase.1 hk
    rcases hmem k hk' with rfl | hk'
    · exact hne rfl
    · exact h.not_committed_of_pending k hk hk'
  · rw [hpending, hcom]
    intro k hk
    rw [mem_recordEnd_content, AList.mem_iff_get, hc.content_get] at hk
    split at hk
    · cases hk
    · rename_i hgone
      by_cases hkid : k = id
      · left
        rw [AList.mem_iff_get, hc.committed_get, if_neg hgone, if_pos hkid]
        rfl
      · refine (h.tracked k (AList.mem_iff_get.2 hk)).imp ?_ ?_
        · intro hk'
          rw [AList.mem_iff_get, hc.committed_get, if_neg hgone, if_neg hkid]
          exact AList.mem_iff_get.1 hk'
        · rintro ⟨stroke, hstroke, hcl⟩
          exact ⟨stroke, by rw [closed, AList.get_erase, if_neg hkid, hstroke], hcl⟩
  · rw [userOpen, hpending]
    exact (userOpen_closed_le s id user).trans (h.user_le user)
  · rw [hpending]
    exact (size_closed_le s id).trans h.room_le

/-! ### Bounding the open strokes -/

lemma oldestOpen_spec {user : Uuid} (h : ¬ (!s.overUser user && !s.overRoom) = true) :
    ∃ id stroke, s.oldestOpen user = some ⟨id, stroke⟩ ∧ s.pending.get id = some stroke := by
  have hne : (s.pending.entries.filter fun e => !s.overUser user || e.2.senderId == user) ≠ [] := by
    intro hnil
    rw [List.filter_eq_nil_iff] at hnil
    cases hover : s.overUser user with
    | true =>
      have hcount : 0 < s.userOpen user := lt_of_lt_of_le (by decide) (of_decide_eq_true hover)
      obtain ⟨stroke, hmem, hs⟩ := List.countP_pos_iff.1 hcount
      obtain ⟨id, hid⟩ := AList.mem_vals.1 hmem
      exact hnil _ (AList.get_eq_some_iff.1 hid) (by simp [hs])
    | false =>
      have hroom : s.overRoom = true := by simpa [hover] using h
      have hsize : 0 < s.pending.size := lt_of_lt_of_le (by decide) (of_decide_eq_true hroom)
      obtain ⟨stroke, hmem⟩ := List.exists_mem_of_length_pos hsize
      obtain ⟨id, hid⟩ := AList.mem_vals.1 hmem
      exact hnil _ (AList.get_eq_some_iff.1 hid) (by simp [hover])
  cases ho : s.oldestOpen user with
  | none => exact absurd (least_eq_none.1 ho) hne
  | some e =>
    exact ⟨e.1, e.2, rfl, AList.get_eq_some_iff.2 (List.mem_of_mem_filter (least_mem ho))⟩

/-- One round of `finish_oldest_open_strokes`: a cleared stroke is forgotten, any other one ends. -/
inductive Finishes (s : StrokeBookkeeping) (nowMs : ℤ) (id : Uuid) :
    List (Uuid × Uuid) → StrokeBookkeeping → Prop
  | cleared (stroke : PendingStroke) (hs : s.pending.get id = some stroke)
      (hcl : stroke.cleared = true) : Finishes s nowMs id [] ((s.closed id).forgotten id)
  | ended (stroke : PendingStroke) (hs : s.pending.get id = some stroke)
      (hcl : stroke.cleared = false) (s' : StrokeBookkeeping)
      (he : s.Ends id stroke.senderId nowMs s') :
      Finishes s nowMs id [(id, stroke.senderId)] s'

lemma finishOpen_spec (h : s.Bookkept) {id : Uuid} {stroke : PendingStroke}
    (hs : s.pending.get id = some stroke) (nowMs : ℤ) :
    ∃ s' finished, s.finishOpen id stroke nowMs = some (s', finished) ∧
      s.Finishes nowMs id finished s' := by
  cases hcl : stroke.cleared with
  | true =>
    have hr : (s.closed id).Retained :=
      ⟨h.retained.count_eq, h.retained.count_le, h.retained.points_le, h.retained.dropped_empty⟩
    refine ⟨_, [], ?_, .cleared stroke hs hcl⟩
    have hf := forgetContent_eq hr id
    unfold closed at hf
    simp [finishOpen, hcl, hf, closed]
  | false =>
    obtain ⟨t, gone, hcommit, he⟩ := exists_ends h (AList.mem_of_get hs) stroke.senderId nowMs
    refine ⟨_, _, ?_, .ended stroke hs hcl _ he⟩
    unfold closed at hcommit
    simp [finishOpen, hcl, hcommit]

lemma Finishes.pending_eq {nowMs : ℤ} {id : Uuid} {finished : List (Uuid × Uuid)}
    {s' : StrokeBookkeeping} (hf : s.Finishes nowMs id finished s') :
    s'.pending = s.pending.erase id := by
  cases hf with
  | cleared => rfl
  | ended stroke hs hcl s' he =>
    obtain ⟨t, gone, hc, rfl⟩ := he
    exact (recordEnd_frame t id nowMs).1.trans hc.pending_eq

theorem Bookkept.finishes (h : s.Bookkept) {nowMs : ℤ} {id : Uuid} {finished : List (Uuid × Uuid)}
    {s' : StrokeBookkeeping} (hf : s.Finishes nowMs id finished s') : s'.Bookkept := by
  cases hf with
  | cleared => exact h.closed_forgotten id
  | ended stroke hs hcl s' he => exact h.ends he

/-- The rounds of `finish_oldest_open_strokes`: the state they reach, with the bounds met. -/
inductive FinishesAll (user : Uuid) (nowMs : ℤ) :
    StrokeBookkeeping → List (Uuid × Uuid) → StrokeBookkeeping → Prop
  | done (s : StrokeBookkeeping) (hu : s.userOpen user < maxOpenStrokesPerUser)
      (hr : s.pending.size < maxOpenStrokesPerRoom) : FinishesAll user nowMs s [] s
  | round {s t s' : StrokeBookkeeping} {id : Uuid} {finished later : List (Uuid × Uuid)}
      (hf : s.Finishes nowMs id finished t) (ht : FinishesAll user nowMs t later s') :
      FinishesAll user nowMs s (finished ++ later) s'

theorem Bookkept.finishesAll {user : Uuid} {nowMs : ℤ} {finished : List (Uuid × Uuid)}
    {s s' : StrokeBookkeeping} (hf : FinishesAll user nowMs s finished s') (h : s.Bookkept) :
    s'.Bookkept := by
  induction hf with
  | done => exact h
  | round hf _ ih => exact ih (h.finishes hf)

lemma FinishesAll.bounds {user : Uuid} {nowMs : ℤ} {finished : List (Uuid × Uuid)}
    {s s' : StrokeBookkeeping} (hf : FinishesAll user nowMs s finished s') :
    s'.userOpen user < maxOpenStrokesPerUser ∧ s'.pending.size < maxOpenStrokesPerRoom := by
  induction hf with
  | done s hu hr => exact ⟨hu, hr⟩
  | round _ _ ih => exact ih

/-- Finishing strokes neither opens nor commits an id that was neither open nor committed. -/
lemma FinishesAll.fresh {user : Uuid} {nowMs : ℤ} {finished : List (Uuid × Uuid)}
    {s s' : StrokeBookkeeping} (hf : FinishesAll user nowMs s finished s') {id : Uuid}
    (hp : id ∉ s.pending) (hc : id ∉ s.committed) : id ∉ s'.pending ∧ id ∉ s'.committed := by
  induction hf with
  | done => exact ⟨hp, hc⟩
  | @round s t s' k finished later hf _ ih =>
    refine ih (fun h => hp ?_) fun h => ?_
    · rw [hf.pending_eq] at h
      exact (AList.mem_erase.1 h).2
    · cases hf with
      | cleared => exact hc h
      | ended stroke hs hcl _ he =>
        obtain ⟨u, gone, hcm, rfl⟩ := he
        rw [(recordEnd_frame u k nowMs).2.1, AList.mem_iff_get, hcm.committed_get] at h
        split at h
        · cases h
        · split at h
          · rename_i hk
            exact hp (hk ▸ AList.mem_of_get hs)
          · exact hc (AList.mem_iff_get.2 h)

/-- What `finish_oldest_open_strokes` does to a bookkeeping with the invariant: nothing, or one
round. -/
inductive FinishesOnce (user : Uuid) (nowMs : ℤ) (s : StrokeBookkeeping) :
    List (Uuid × Uuid) → StrokeBookkeeping → Prop
  | idle (hu : s.userOpen user < maxOpenStrokesPerUser)
      (hr : s.pending.size < maxOpenStrokesPerRoom) : FinishesOnce user nowMs s [] s
  | round (id : Uuid) (stroke : PendingStroke) (finished : List (Uuid × Uuid))
      (t : StrokeBookkeeping) (hover : (s.overUser user || s.overRoom) = true)
      (holdest : s.oldestOpen user = some ⟨id, stroke⟩) (hs : s.pending.get id = some stroke)
      (hf : s.Finishes nowMs id finished t) (hu : t.userOpen user < maxOpenStrokesPerUser)
      (hr : t.pending.size < maxOpenStrokesPerRoom) : FinishesOnce user nowMs s finished t

lemma FinishesOnce.all {user : Uuid} {nowMs : ℤ} {finished : List (Uuid × Uuid)}
    {t : StrokeBookkeeping} (h : FinishesOnce user nowMs s finished t) :
    FinishesAll user nowMs s finished t := by
  cases h with
  | idle hu hr => exact .done s hu hr
  | round id stroke finished t _ _ _ hf hu hr => simpa using FinishesAll.round hf (.done t hu hr)

/-- Closing the oldest stroke brings the open strokes under both bounds. -/
lemma closed_bounds (h : s.Bookkept) {user : Uuid} {id : Uuid} {stroke : PendingStroke}
    (holdest : s.oldestOpen user = some ⟨id, stroke⟩) (hs : s.pending.get id = some stroke) :
    (s.closed id).userOpen user < maxOpenStrokesPerUser ∧
      (s.closed id).pending.size < maxOpenStrokesPerRoom := by
  have hsize := AList.size_of_get hs
  have hroom := h.room_le
  have huser := h.user_le user
  have hlt : (s.closed id).pending.size < s.pending.size := by
    rw [hsize]
    exact Nat.lt_succ_self _
  refine ⟨?_, by omega⟩
  have hle := userOpen_closed_le s id user
  cases hover : s.overUser user with
  | false =>
    have : s.userOpen user < maxOpenStrokesPerUser := by simpa [overUser] using hover
    omega
  | true =>
    have hmem := (List.mem_filter.1 (least_mem holdest)).2
    have hsender : (stroke.senderId == user) = true := by simpa [hover] using hmem
    have hcount := AList.countBy_of_get (fun p : PendingStroke => p.senderId == user) hs
    rw [hsender] at hcount
    unfold userOpen at huser ⊢
    simp only [closed]
    simp only [if_true] at hcount
    omega

theorem finishOldestOpenStrokes_once (h : s.Bookkept) (user : Uuid) (nowMs : ℤ) :
    ∃ t finished, s.finishOldestOpenStrokes user nowMs = some (t, finished) ∧
      FinishesOnce user nowMs s finished t := by
  -- a round that is not needed does nothing
  have hidle (rounds : ℕ) (t : StrokeBookkeeping) (hu : t.userOpen user < maxOpenStrokesPerUser)
      (hr : t.pending.size < maxOpenStrokesPerRoom) :
      finishOldestLoop user nowMs rounds t = some (t, []) := by
    cases rounds with
    | zero => rfl
    | succ rounds => simp [finishOldestLoop, overUser, overRoom, hu, hr]
  by_cases hover : (!s.overUser user && !s.overRoom) = true
  · have hu : s.userOpen user < maxOpenStrokesPerUser := by
      simpa [overUser] using (Bool.and_eq_true_iff.1 hover).1
    have hr : s.pending.size < maxOpenStrokesPerRoom := by
      simpa [overRoom] using (Bool.and_eq_true_iff.1 hover).2
    exact ⟨s, [], hidle _ s hu hr, .idle hu hr⟩
  · obtain ⟨id, stroke, holdest, hs⟩ := oldestOpen_spec hover
    obtain ⟨t, finished, hfinish, hf⟩ := finishOpen_spec h hs nowMs
    have hb := closed_bounds h holdest hs
    have hpending : t.pending = (s.closed id).pending := hf.pending_eq
    have hu : t.userOpen user < maxOpenStrokesPerUser := by
      rw [userOpen, hpending]
      exact hb.1
    have hr : t.pending.size < maxOpenStrokesPerRoom := hpending ▸ hb.2
    have hrounds : s.pending.size = (s.pending.erase id).size + 1 := AList.size_of_get hs
    have hover' : (s.overUser user || s.overRoom) = true := by
      cases hou : s.overUser user <;> simp_all
    refine ⟨t, finished, ?_, .round id stroke finished t hover' holdest hs hf hu hr⟩
    rw [finishOldestOpenStrokes, hrounds]
    simp [finishOldestLoop, hover, holdest, hfinish, hidle _ t hu hr]

/-! ### Beginning a stroke -/

/-- The content entry `record_begin` makes. -/
def beginContent (owner : Uuid) (begin : StrokeBeginPayload) : StrokeContent :=
  let oversized : Bool := maxRetainedColorBytes < begin.color.utf8ByteSize
  { owner
    begin := if oversized then { begin with color := "" } else begin
    points := []
    endTsMs := none
    dropped := oversized }

/-- A stroke opened by `DRAW_BEGIN`. -/
def opened (s : StrokeBookkeeping) (stroke : PendingStroke) (begin : StrokeBeginPayload) :
    StrokeBookkeeping :=
  { s with
    pending := s.pending.insert begin.strokeId stroke
    content := (s.content.erase begin.strokeId).insert begin.strokeId
      (beginContent stroke.senderId begin)
    retainedPoints := s.retainedPoints - s.pointsOf begin.strokeId }

lemma recordBegin_eq (h : s.Retained) (stroke : PendingStroke) (begin : StrokeBeginPayload) :
    recordBegin { s with pending := s.pending.insert begin.strokeId stroke } stroke.senderId begin =
      some (s.opened stroke begin) := by
  have h' : Retained { s with pending := s.pending.insert begin.strokeId stroke } :=
    ⟨h.count_eq, h.count_le, h.points_le, h.dropped_empty⟩
  rw [recordBegin, forgetContent_eq h']
  rfl

theorem Bookkept.opened (h : s.Bookkept) {stroke : PendingStroke} {begin : StrokeBeginPayload}
    (hcl : stroke.cleared = false) (hp : begin.strokeId ∉ s.pending)
    (hc : begin.strokeId ∉ s.committed)
    (hu : s.userOpen stroke.senderId < maxOpenStrokesPerUser)
    (hr : s.pending.size < maxOpenStrokesPerRoom) : (s.opened stroke begin).Bookkept where
  ordered := ⟨h.ordered.nodup, h.ordered.mem_iff, h.ordered.length_le⟩
  retained := by
    have hf := h.retained.forgotten begin.strokeId
    have hlookup : ∀ k c, (s.opened stroke begin).content.get k = some c →
        (k = begin.strokeId ∧ c = beginContent stroke.senderId begin) ∨
          (s.forgotten begin.strokeId).content.get k = some c := by
      intro k c hk
      rw [StrokeBookkeeping.opened, AList.get_insert] at hk
      split at hk
      · exact Or.inl ⟨‹_›, (Option.some.inj hk).symm⟩
      · exact Or.inr hk
    refine ⟨?_, hf.count_le, fun k c hk => ?_, fun k c hk hd => ?_⟩
    · have hcount := hf.count_eq
      unfold heldPoints StrokeBookkeeping.forgotten at hcount
      unfold heldPoints StrokeBookkeeping.opened
      rw [AList.sumBy_insert, AList.erase_of_notMem (m := s.content.erase begin.strokeId)
        fun hk => (AList.mem_erase.1 hk).1 rfl]
      simpa [beginContent] using hcount
    · rcases hlookup k c hk with ⟨rfl, rfl⟩ | hk'
      · exact Nat.zero_le _
      · exact hf.points_le k c hk'
    · rcases hlookup k c hk with ⟨rfl, rfl⟩ | hk'
      · rfl
      · exact hf.dropped_empty k c hk' hd
  not_committed_of_pending := by
    intro k hk
    rcases (AList.mem_insert _).1 hk with rfl | hk
    · exact hc
    · exact h.not_committed_of_pending k hk
  tracked := by
    intro k hk
    by_cases hkid : k = begin.strokeId
    · exact Or.inr ⟨stroke, by simp [StrokeBookkeeping.opened, hkid], hcl⟩
    · rcases (AList.mem_insert _).1 hk with rfl | hk
      · exact absurd rfl hkid
      · refine (h.tracked k (AList.mem_erase.1 hk).2).imp_right ?_
        rintro ⟨stroke', hs, hcl'⟩
        exact ⟨stroke', by rw [StrokeBookkeeping.opened, AList.get_insert, if_neg hkid, hs], hcl'⟩
  user_le := by
    intro user
    have hu' := h.user_le user
    unfold userOpen at hu hu' ⊢
    rw [StrokeBookkeeping.opened, AList.countBy_insert, AList.erase_of_notMem hp]
    by_cases hs : stroke.senderId = user
    · subst hs
      simpa using Nat.succ_le_of_lt hu
    · simpa [hs] using hu'
  room_le := by
    rw [StrokeBookkeeping.opened, AList.size_insert, AList.erase_of_notMem hp]
    exact Nat.succ_le_of_lt hr

end Locast.Rooms.StrokeBookkeeping
