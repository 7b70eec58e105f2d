import Locast.Rooms.DrawingLog

/-!
# The canvas a client draws

A client that gets every drawing event builds its canvas by replaying them (`Canvas.apply`); a
client that fell behind gets a `DRAW_SYNC` snapshot instead.  `Mirrors` is the invariant that ties
the room's bookkeeping to the replay: the strokes the room holds are those on the canvas, and the
content it still keeps is theirs.

The room forgets its oldest stroke when it holds `maxCommittedStrokes` and another one ends.  No
event says so, and from then on a snapshot lacks a stroke that every other client shows.
-/

namespace Locast.Rooms

open Locast.Lib Locast.Protocol StrokeBookkeeping

/-! ### Replaying events -/

/-- A stroke on a client's canvas. -/
structure CanvasStroke where
  owner : Option Uuid
  begin : StrokeBeginPayload
  points : List StrokeSyncPoint
  endTsMs : Option ℤ

/-- The strokes a client shows. -/
abbrev Canvas : Type := AMap Uuid CanvasStroke

/-- The point a `DRAW_POINT` adds. -/
def syncPoint (p : StrokePointPayload) : StrokeSyncPoint where
  x := p.x
  y := p.y
  pressure := p.pressure
  tsMs := p.tsMs

/-- A change of one stroke, if it is there. -/
def Canvas.change (canvas : Canvas) (id : Uuid) (f : CanvasStroke → CanvasStroke) : Canvas :=
  match canvas.get id with
  | none => canvas
  | some stroke => canvas.insert id (f stroke)

/-- What an event with this payload and sender does to a canvas. -/
def Canvas.draw (canvas : Canvas) (payload : WirePayload) (sender : Option Uuid) : Canvas :=
  match payload with
  | .strokeBegin p =>
    canvas.insert p.strokeId { owner := sender, begin := p, points := [], endTsMs := none }
  | .strokePoint p =>
    canvas.change p.strokeId fun stroke => { stroke with points := stroke.points ++ [syncPoint p] }
  | .strokeEnd p => canvas.change p.strokeId fun stroke => { stroke with endTsMs := some p.tsMs }
  | .strokeUndo p => canvas.erase p.strokeId
  | .strokeClear => ∅
  | _ => canvas

/-- What an item does to a canvas. -/
def Canvas.apply (canvas : Canvas) (item : BroadcastItem) : Canvas :=
  canvas.draw item.payload item.sender

/-- The canvas of a client that got these items. -/
def replay (items : List BroadcastItem) : Canvas := items.foldl Canvas.apply ∅

/-- **A snapshot shows a canvas**: the same strokes with the same owner and the same end, and the
content it lists is theirs. -/
structure Shows (canvas : Canvas) (snapshot : StrokeSyncPayload) : Prop where
  nodup : (snapshot.strokes.map (·.strokeId)).Nodup
  mem_iff : ∀ id, id ∈ canvas ↔ id ∈ snapshot.strokes.map (·.strokeId)
  same : ∀ e ∈ snapshot.strokes, ∃ stroke, canvas.get e.strokeId = some stroke ∧
    stroke.owner = some e.ownerId ∧ stroke.endTsMs = e.endTsMs ∧
    ∀ begin, e.begin = some begin → begin = stroke.begin ∧ e.points = stroke.points

lemma Canvas.get_change (canvas : Canvas) (id k : Uuid) (f : CanvasStroke → CanvasStroke) :
    (canvas.change id f).get k = if k = id then (canvas.get id).map f else canvas.get k := by
  unfold change
  cases hc : canvas.get id with
  | none =>
    by_cases hk : k = id
    · simp [hk, hc]
    · simp [hk]
  | some stroke => simp [AList.get_insert]

/-- Numbered items replay like the events they came from. -/
lemma foldl_numbered (roomId : Uuid) (seq : ℕ) (events : List RoomEvent) (canvas : Canvas) :
    (numbered roomId seq events).foldl Canvas.apply canvas =
      events.foldl (fun c e => c.draw e.payload e.sender) canvas := by
  induction events generalizing seq canvas with
  | nil => rfl
  | cons e events ih => exact ih _ _

/-! ### The mirror -/

namespace StrokeBookkeeping

/-- Who holds a stroke of the canvas, and whether it has ended. -/
def holder (s : StrokeBookkeeping) (id : Uuid) : Option (Uuid × Bool) :=
  match s.committed.get id with
  | some owner => some (owner, true)
  | none =>
    match s.pending.get id with
    | some p => if p.cleared then none else some (p.senderId, false)
    | none => none

/-- What the room holds of one stroke, and what a client shows of it. -/
inductive MirrorsAt : Option (Uuid × Bool) → Option StrokeContent → Option CanvasStroke → Prop
  | absent (c : Option StrokeContent) : MirrorsAt none c none
  | shown (owner : Uuid) (c : StrokeContent) (stroke : CanvasStroke)
      (howner : c.owner = owner ∧ stroke.owner = some owner) (hend : c.endTsMs = stroke.endTsMs)
      (hcontent : c.dropped = false → c.begin = stroke.begin ∧ c.points = stroke.points) :
      MirrorsAt (some (owner, stroke.endTsMs.isSome)) (some c) (some stroke)

/-- **The canvas is what the room holds.** -/
def Mirrors (s : StrokeBookkeeping) (canvas : Canvas) : Prop :=
  ∀ id, MirrorsAt (s.holder id) (s.content.get id) (canvas.get id)

variable {s s' : StrokeBookkeeping} {canvas : Canvas}

lemma holder_congr {k : Uuid} (hc : s'.committed.get k = s.committed.get k)
    (hp : s'.pending.get k = s.pending.get k) : s'.holder k = s.holder k := by
  unfold holder
  rw [hc, hp]

lemma holder_of_committed {id owner : Uuid} (h : s.committed.get id = some owner) :
    s.holder id = some (owner, true) := by
  simp [holder, h]

lemma holder_of_pending (hb : s.Bookkept) {id : Uuid} {p : PendingStroke}
    (h : s.pending.get id = some p) :
    s.holder id = if p.cleared then none else some (p.senderId, false) := by
  have hc : s.committed.get id = none :=
    AList.get_eq_none.2 (hb.not_committed_of_pending id (AList.mem_of_get h))
  simp [holder, hc, h]

lemma holder_of_absent {id : Uuid} (hp : id ∉ s.pending) (hc : id ∉ s.committed) :
    s.holder id = none := by
  simp [holder, AList.get_eq_none.2 hp, AList.get_eq_none.2 hc]

/-- Freeing content leaves the mirror alone. -/
lemma MirrorsAt.freed {h : Option (Uuid × Bool)} {c : Option StrokeContent}
    {stroke : Option CanvasStroke} (hm : MirrorsAt h c stroke) :
    MirrorsAt h (c.map fun c => { c with points := [], dropped := true }) stroke := by
  cases hm with
  | absent => exact .absent _
  | shown owner c stroke howner hend _ =>
    exact .shown owner _ stroke howner hend fun hd => by cases hd

lemma Mirrors.freed (h : s.Mirrors canvas) (id : Uuid) : (s.freed id).Mirrors canvas := by
  intro k
  rw [holder_congr (s := s) (by simp) (by simp), freed_get]
  split
  · rename_i hk
    subst hk
    exact (h k).freed
  · exact h k

lemma Mirrors.congr (h : s.Mirrors canvas) (hp : s'.pending = s.pending)
    (hc : s'.committed = s.committed) (hk : s'.content = s.content) : s'.Mirrors canvas := by
  intro k
  rw [holder_congr (s := s) (by rw [hc]) (by rw [hp]), hk]
  exact h k

/-- A change of one stroke on the canvas, with the content the room holds of it. -/
lemma Mirrors.change (h : s.Mirrors canvas) {id : Uuid} {f : CanvasStroke → CanvasStroke}
    (hholder : ∀ k, k ≠ id → s'.holder k = s.holder k)
    (hcontent : ∀ k, k ≠ id → s'.content.get k = s.content.get k)
    (hid : MirrorsAt (s'.holder id) (s'.content.get id) ((canvas.get id).map f)) :
    s'.Mirrors (canvas.change id f) := by
  intro k
  rw [Canvas.get_change]
  split
  · rename_i hk
    subst hk
    exact hid
  · rename_i hk
    rw [hholder k hk, hcontent k hk]
    exact h k

/-! ### Points -/

/-- The stroke on the canvas gets a point. -/
def pointed (point : StrokePointPayload) (stroke : CanvasStroke) : CanvasStroke :=
  { stroke with points := stroke.points ++ [syncPoint point] }

/-- Points of a stroke whose content is not kept. -/
lemma MirrorsAt.pointed {x : Option (Uuid × Bool)} {c : Option StrokeContent}
    {stroke : Option CanvasStroke} (hm : MirrorsAt x c stroke)
    (hd : ∀ c', c = some c' → c'.dropped = true) (point : StrokePointPayload) :
    MirrorsAt x c (stroke.map (pointed point)) := by
  cases hm with
  | absent => exact .absent _
  | shown owner c stroke howner hend _ =>
    exact .shown owner c (StrokeBookkeeping.pointed point stroke) howner hend fun hkept => by
      rw [hd c rfl] at hkept
      cases hkept

/-- One more point on a stroke whose content is kept. -/
lemma Mirrors.appended (h : s.Mirrors canvas) {point : StrokePointPayload} {c : StrokeContent}
    (hc : s.content.get point.strokeId = some c) :
    (s.appended point c).Mirrors (canvas.change point.strokeId (pointed point)) := by
  refine h.change (fun k hk => rfl) (fun k hk => ?_) ?_
  · simp [StrokeBookkeeping.appended, AList.get_insert, hk]
  · have hm := h point.strokeId
    rw [hc] at hm
    simp only [StrokeBookkeeping.appended, AList.get_insert_self]
    change MirrorsAt (s.holder point.strokeId) _ _
    generalize s.holder point.strokeId = x at hm
    generalize canvas.get point.strokeId = stroke at hm
    cases hm with
    | absent => exact .absent _
    | shown owner c stroke howner hend hcontent =>
      refine .shown owner _ (pointed point stroke) howner hend fun hd => ?_
      obtain ⟨hbegin, hpoints⟩ := hcontent hd
      exact ⟨hbegin, by rw [hpoints]; rfl⟩

/-- A point of a stroke whose own content is freed with it. -/
lemma Mirrors.freed_pointed (h : s.Mirrors canvas) (point : StrokePointPayload) :
    (s.freed point.strokeId).Mirrors (canvas.change point.strokeId (pointed point)) := by
  have hf := h.freed point.strokeId
  refine hf.change (fun k hk => rfl) (fun k hk => rfl) ((hf point.strokeId).pointed ?_ point)
  intro c hc
  rw [freed_get, if_pos rfl] at hc
  obtain ⟨c', -, rfl⟩ := Option.map_eq_some_iff.1 hc
  rfl

/-- **A kept point is on the canvas.** -/
theorem Mirrors.keepsPoint (h : s.Mirrors canvas) {point : StrokePointPayload}
    (hk : s.KeepsPoint point s') : s'.Mirrors (canvas.change point.strokeId (pointed point)) := by
  cases hk with
  | unkept hd =>
    exact h.change (fun k hk => rfl) (fun k hk => rfl) ((h point.strokeId).pointed hd point)
  | atLimit => exact h.freed_pointed point
  | append c hc => exact h.appended hc
  | evict c hc hd hlen hfull victim hv hne =>
    refine Mirrors.appended ?_ ?_
    · exact (h.freed victim).congr rfl rfl rfl
    · change (s.freed victim).content.get point.strokeId = some c
      rw [freed_get, if_neg hne, hc]
  | giveUp =>
    have hcleared : StrokeBookkeeping.Mirrors { s with evictOrder := [] } canvas :=
      h.congr rfl rfl rfl
    exact hcleared.freed_pointed point

/-! ### Beginning, ending and removing strokes -/

/-- The stroke on the canvas ends. -/
def finishedAt (tsMs : ℤ) (stroke : CanvasStroke) : CanvasStroke :=
  { stroke with endTsMs := some tsMs }

/-- **An ended stroke is ended on the canvas**, when the room has room for it. -/
theorem Mirrors.ends (h : s.Mirrors canvas) (hb : s.Bookkept) {id : Uuid} {p : PendingStroke}
    (hp : s.pending.get id = some p) (hcl : p.cleared = false) {tsMs : ℤ}
    (he : s.Ends id p.senderId tsMs s') (hroom : s.committedOrder.length ≠ maxCommittedStrokes) :
    s'.Mirrors (canvas.change id (finishedAt tsMs)) := by
  obtain ⟨t, gone, hc, rfl⟩ := he
  have hgone : gone = [] := List.eq_nil_iff_forall_not_mem.2 fun k hk => hroom (hc.full k hk).2
  subst hgone
  obtain ⟨hpending, hcommitted, -⟩ := recordEnd_frame t id tsMs
  have hcget (k : Uuid) : (t.recordEnd id tsMs).committed.get k =
      if k = id then some p.senderId else s.committed.get k := by
    rw [hcommitted, hc.committed_get, if_neg List.not_mem_nil]
    rfl
  have hkget (k : Uuid) : t.content.get k = s.content.get k := by
    rw [hc.content_get, if_neg List.not_mem_nil]
    rfl
  refine h.change (fun k hk => holder_congr ?_ ?_) (fun k hk => ?_) ?_
  · rw [hcget, if_neg hk]
  · rw [hpending, hc.pending_eq, closed, AList.get_erase, if_neg hk]
  · rw [recordEnd_content, if_neg hk, hkget]
  · rw [holder_of_committed (by rw [hcget, if_pos rfl]), recordEnd_content, if_pos rfl, hkget]
    have hm := h id
    rw [holder_of_pending hb hp, hcl] at hm
    generalize s.content.get id = c at hm
    generalize hstroke : canvas.get id = stroke at hm
    simp only [Bool.false_eq_true, if_false] at hm
    generalize hx : some (p.senderId, false) = x at hm
    cases hm with
    | absent => cases hx
    | shown owner c stroke howner hend hcontent =>
      obtain ⟨rfl, -⟩ := Prod.mk.inj (Option.some.inj hx)
      exact .shown _ _ (finishedAt tsMs stroke) howner rfl hcontent

/-- A stroke that was cleared while open is gone already. -/
lemma Mirrors.closed_forgotten (h : s.Mirrors canvas) (hb : s.Bookkept) {id : Uuid}
    {p : PendingStroke} (hp : s.pending.get id = some p) (hcl : p.cleared = true) :
    ((s.closed id).forgotten id).Mirrors canvas := by
  intro k
  by_cases hk : k = id
  · subst hk
    have hm := h k
    rw [holder_of_pending hb hp, hcl, if_pos rfl] at hm
    have hnone : ((s.closed k).forgotten k).holder k = none := by
      refine holder_of_absent (fun hmem => ?_) ?_
      · exact (AList.mem_erase.1 hmem).1 rfl
      · exact hb.not_committed_of_pending k (AList.mem_of_get hp)
    rw [hnone]
    generalize canvas.get k = stroke at hm
    cases hm with
    | absent => exact .absent _
  · have hholder : ((s.closed id).forgotten id).holder k = s.holder k :=
      holder_congr rfl (by simp [forgotten, closed, AList.get_erase, hk])
    have hcontent : ((s.closed id).forgotten id).content.get k = s.content.get k := by
      simp [forgotten, closed, AList.get_erase, hk]
    rw [hholder, hcontent]
    exact h k

/-- A stroke that begins. -/
lemma Mirrors.opened (h : s.Mirrors canvas) {stroke : PendingStroke} {begin : StrokeBeginPayload}
    (hcl : stroke.cleared = false) (hc : begin.strokeId ∉ s.committed) :
    (s.opened stroke begin).Mirrors (canvas.draw (.strokeBegin begin) (some stroke.senderId)) := by
  intro k
  simp only [Canvas.draw, AList.get_insert]
  by_cases hk : k = begin.strokeId
  · subst hk
    have hholder : (s.opened stroke begin).holder begin.strokeId =
        some (stroke.senderId, false) := by
      simp [holder, StrokeBookkeeping.opened, AList.get_eq_none.2 hc, hcl]
    rw [hholder, if_pos rfl]
    simp only [StrokeBookkeeping.opened, AList.get_insert_self]
    refine .shown stroke.senderId (beginContent stroke.senderId begin)
      ⟨some stroke.senderId, begin, [], none⟩ ⟨rfl, rfl⟩ rfl fun hd => ?_
    simp only [beginContent] at hd ⊢
    simp [hd]
  · rw [if_neg hk]
    have hholder : (s.opened stroke begin).holder k = s.holder k :=
      holder_congr rfl (by simp [StrokeBookkeeping.opened, AList.get_insert, hk])
    have hcontent : (s.opened stroke begin).content.get k = s.content.get k := by
      simp [StrokeBookkeeping.opened, AList.get_insert, AList.get_erase, hk]
    rw [hholder, hcontent]
    exact h k

/-- A committed stroke that is undone. -/
lemma Mirrors.undone (h : s.Mirrors canvas) (hb : s.Bookkept) {id : Uuid} (hc : id ∈ s.committed) :
    (s.undone id).Mirrors (canvas.erase id) := by
  intro k
  rw [AList.get_erase]
  by_cases hk : k = id
  · subst hk
    have hnone : (s.undone k).holder k = none :=
      holder_of_absent (fun hp => hb.not_committed_of_pending k hp hc)
        fun hmem => (AList.mem_erase.1 hmem).1 rfl
    rw [hnone, if_pos rfl]
    exact .absent _
  · have hholder : (s.undone id).holder k = s.holder k :=
      holder_congr (by simp [StrokeBookkeeping.undone, AList.get_erase, hk]) rfl
    have hcontent : (s.undone id).content.get k = s.content.get k := by
      simp [StrokeBookkeeping.undone, AList.get_erase, hk]
    rw [hholder, hcontent, if_neg hk]
    exact h k

/-- A cleared canvas. -/
lemma mirrors_clearAll (s : StrokeBookkeeping) : s.clearAll.2.Mirrors ∅ := by
  intro k
  have hnone : s.clearAll.2.holder k = none := by
    simp only [holder, clearAll, AList.get_empty, AList.get_mapVals]
    cases s.pending.get k <;> simp
  rw [hnone, AList.get_empty]
  exact .absent _

/-- A new canvas. -/
lemma mirrors_new (nowMs : ℕ) : (StrokeBookkeeping.new nowMs).Mirrors ∅ := by
  intro k
  simpa [holder, StrokeBookkeeping.new, empty] using MirrorsAt.absent _

/-! ### Snapshots -/

@[simp] lemma syncEntry_strokeId (id owner : Uuid) : (s.syncEntry id owner).strokeId = id := by
  unfold syncEntry
  dsimp only
  split
  · rfl
  · split <;> rfl

lemma mem_entries {id : Uuid} {p : PendingStroke} :
    (⟨id, p⟩ : (_ : Uuid) × PendingStroke) ∈ (s.pending.entries.filter fun e => !e.2.cleared) ↔
      s.pending.get id = some p ∧ p.cleared = false := by
  rw [List.mem_filter, AList.get_eq_some_iff]
  simp

/-- A snapshot lists the strokes the room holds. -/
lemma mem_snapshot (hb : s.Bookkept) {e : StrokeSyncStroke} : e ∈ s.snapshot.strokes ↔
    ∃ id owner ended, s.holder id = some (owner, ended) ∧ e = s.syncEntry id owner := by
  simp only [snapshot, List.mem_append, List.mem_filterMap, List.mem_map, List.mem_insertionSort]
  constructor
  · rintro (⟨id, -, he⟩ | ⟨⟨id, p⟩, he, rfl⟩)
    · obtain ⟨owner, howner, rfl⟩ := Option.map_eq_some_iff.1 he
      exact ⟨id, owner, true, holder_of_committed howner, rfl⟩
    · obtain ⟨hp, hcl⟩ := mem_entries.1 he
      exact ⟨id, p.senderId, false, by rw [holder_of_pending hb hp, hcl]; rfl, rfl⟩
  · rintro ⟨id, owner, ended, h, rfl⟩
    cases hc : s.committed.get id with
    | some owner' =>
      rw [holder_of_committed hc] at h
      cases h
      exact .inl ⟨id, (hb.ordered.mem_iff id).2 (AList.mem_of_get hc),
        Option.map_eq_some_iff.2 ⟨owner, hc, rfl⟩⟩
    | none =>
      cases hp : s.pending.get id with
      | none => simp [holder, hc, hp] at h
      | some p =>
        rw [holder_of_pending hb hp] at h
        split at h
        · cases h
        · rename_i hcl
          cases h
          exact .inr ⟨⟨id, p⟩, mem_entries.2 ⟨hp, by simpa using hcl⟩, rfl⟩

/-- A snapshot lists no stroke twice. -/
lemma snapshot_nodup (hb : s.Bookkept) : (s.snapshot.strokes.map (·.strokeId)).Nodup := by
  simp only [snapshot, List.map_append, List.map_filterMap, List.map_map, List.nodup_append]
  have hcommitted (id : Uuid) (k : Uuid)
      (h : k ∈ ((s.committed.get id).map (s.syncEntry id)).map (·.strokeId)) : k = id := by
    rw [Option.map_map, Option.mem_def, Option.map_eq_some_iff] at h
    obtain ⟨owner, -, rfl⟩ := h
    simp
  refine ⟨?_, ?_, ?_⟩
  · refine hb.ordered.nodup.filterMap fun a a' b hb hb' => ?_
    exact (hcommitted a b hb).symm.trans (hcommitted a' b hb')
  · have hperm := List.perm_insertionSort (fun a b => startsBefore b a = false)
      (s.pending.entries.filter fun e => !e.2.cleared)
    refine ((hperm.map _).nodup_iff).2 ?_
    have hkeys : (s.pending.entries.filter fun e => !e.2.cleared).map
        ((fun e : StrokeSyncStroke => e.strokeId) ∘ fun e => s.syncEntry e.1 e.2.senderId) =
          (s.pending.entries.filter fun e => !e.2.cleared).map Sigma.fst :=
      List.map_congr_left fun e _ => by simp
    rw [hkeys]
    exact s.pending.nodupKeys.sublist List.filter_sublist
  · intro a ha b hb' hab
    obtain ⟨id, hid, ha⟩ := List.mem_filterMap.1 ha
    obtain ⟨⟨k, p⟩, hk, rfl⟩ := List.mem_map.1 hb'
    have hpending := (mem_entries.1 ((List.mem_insertionSort _).1 hk)).1
    refine hb.not_committed_of_pending k (AList.mem_of_get hpending) ?_
    have hka : a = id := hcommitted id a ha
    simp only [Function.comp_apply, syncEntry_strokeId] at hab
    rw [← hab, hka]
    exact (hb.ordered.mem_iff id).1 hid

/-- **A mirrored canvas is what the snapshot shows.** -/
theorem Mirrors.shows (h : s.Mirrors canvas) (hb : s.Bookkept) : Shows canvas s.snapshot := by
  refine ⟨snapshot_nodup hb, fun id => ?_, fun e he => ?_⟩
  · have hm := h id
    rw [AList.mem_iff_get]
    constructor
    · intro hc
      cases hx : s.holder id with
      | none =>
        rw [hx] at hm
        generalize canvas.get id = stroke at hm hc
        cases hm
        cases hc
      | some x =>
        exact List.mem_map.2 ⟨_, (mem_snapshot hb).2 ⟨id, x.1, x.2, hx, rfl⟩, by simp⟩
    · intro hmem
      obtain ⟨e, he, rfl⟩ := List.mem_map.1 hmem
      obtain ⟨id, owner, ended, hx, rfl⟩ := (mem_snapshot hb).1 he
      rw [syncEntry_strokeId] at hm ⊢
      rw [hx] at hm
      generalize canvas.get id = stroke at hm
      generalize s.content.get id = c at hm
      generalize hy : some (owner, ended) = y at hm
      cases hm with
      | absent => cases hy
      | shown => rfl
  · obtain ⟨id, owner, ended, hx, rfl⟩ := (mem_snapshot hb).1 he
    have hm := h id
    rw [hx] at hm
    rw [syncEntry_strokeId]
    generalize hstroke : canvas.get id = stroke at hm
    generalize hcontent : s.content.get id = c at hm
    generalize hy : some (owner, ended) = y at hm
    cases hm with
    | absent => cases hy
    | shown owner' c stroke howner hend hkept =>
      obtain ⟨rfl, -⟩ := Prod.mk.inj (Option.some.inj hy)
      refine ⟨stroke, rfl, ?_⟩
      simp only [syncEntry, hcontent]
      split
      · exact ⟨howner.2, hend.symm, fun begin hbegin => by cases hbegin⟩
      · rename_i hd
        obtain ⟨hb, hp⟩ := hkept (by simpa using hd)
        exact ⟨by rw [howner.1, howner.2], hend.symm, fun begin hbegin => ⟨by
          rw [← hb, ← Option.some.inj hbegin], hp⟩⟩

end StrokeBookkeeping

/-! ### One section -/

/-- The section commits a stroke: it accepts a `DRAW_END`, or a `DRAW_BEGIN` that has to end the
oldest open stroke first. -/
def Turn.commits (t : Turn) : Bool :=
  match t.sec with
  | .strokeBegin envelope (.ok payload) userId pubkey _ =>
    t.before.presentCan userId .drawing .drawBegin &&
      (strokeBeginError t.env.crates.verifyStroke envelope t.before userId pubkey payload).isNone &&
      (t.before.drawing.overUser userId || t.before.drawing.overRoom) &&
      (t.before.drawing.oldestOpen userId).any fun e => !e.2.cleared
  | .strokeEnd _ (.ok payload) userId =>
    (t.before.drawing.pending.get payload.strokeId).any fun p => p.senderId == userId && !p.cleared
  | _ => false

/-- The section commits a stroke the room has no place for. -/
def Turn.forgets (t : Turn) : Bool :=
  t.commits && t.before.drawing.committedOrder.length == maxCommittedStrokes

/-- The room forgets no stroke in this section. -/
def remembers (t : Turn) : Prop := t.forgets = false

/-- The `DRAW_END` of a stroke. -/
def RoomEvent.isEnd : RoomEvent → Bool
  | .strokeEnd .. => true
  | _ => false

variable {verify : VerifyStroke} {s : RoomState} {canvas : Canvas}

/-- **One call keeps the mirror**, when the strokes it ends find a place. -/
theorem StrokeBookkeeping.Mirrors.drawn (h : s.drawing.Mirrors canvas) (hb : s.drawing.Bookkept)
    {call : DrawingCall} {events : List RoomEvent} {drawing : StrokeBookkeeping}
    (hd : Drawn verify s call events drawing)
    (hroom : (∃ e ∈ events, e.isEnd = true) →
      s.drawing.committedOrder.length ≠ maxCommittedStrokes) :
    drawing.Mirrors (events.foldl (fun c e => c.draw e.payload e.sender) canvas) := by
  cases hd with
  | silent => exact h
  | opened envelope payload userId pubkey nowMs haccept finished t hf =>
    obtain ⟨-, hp, hc⟩ := strokeBeginError_eq_none haccept
    have hfresh := hf.all.fresh hp hc
    rw [List.foldl_append]
    suffices hm : t.Mirrors ((finished.map fun stroke => RoomEvent.strokeEnd
        (envelope.roomId.getD s.id) stroke.2 { strokeId := stroke.1, tsMs := nowMs }).foldl
          (fun c e => c.draw e.payload e.sender) canvas) from hm.opened rfl hfresh.2
    cases hf with
    | idle => exact h
    | round id stroke finished t _ _ hs hf =>
      cases hf with
      | cleared stroke hs hcl => exact h.closed_forgotten hb hs hcl
      | ended stroke hs hcl _ he => exact h.ends hb hs hcl he (hroom (by simp [RoomEvent.isEnd]))
  | kept envelope payload userId hr stroke hs hu hcl _ hk => exact h.keepsPoint hk
  | forgot envelope payload userId stroke hs hu hcl => exact h.closed_forgotten hb hs hcl
  | ended envelope payload userId stroke hs hu hcl _ he =>
    subst hu
    exact h.ends hb hs hcl he (hroom (by simp [RoomEvent.isEnd]))
  | undone envelope payload userId owner ho hm => exact h.undone hb (AList.mem_of_get ho)
  | cleared => exact mirrors_clearAll _

/-- A section that publishes a `DRAW_END` commits a stroke. -/
lemma Turn.commits_of_end {t : Turn} {events : List RoomEvent} {drawing : StrokeBookkeeping}
    (hd : DrawsItems t.env t.before t.sec t.out events drawing)
    (hend : ∃ e ∈ events, e.isEnd = true) : t.commits = true := by
  obtain ⟨env, store, sec, s, out, h⟩ := t
  obtain ⟨e, he, hend⟩ := hend
  obtain ⟨hdrawn, hitems, -⟩ := hd
  simp only at hdrawn hitems h
  generalize hcall : sec.drawingCall s = call at hdrawn
  cases hdrawn with
  | silent => cases he
  | opened envelope payload userId pubkey nowMs haccept finished t hf =>
    obtain ⟨rfl, hmay⟩ := drawingCall_eq_begin hcall
    simp only [commits, hmay, haccept, Option.isNone_none, Bool.and_self, Bool.true_and]
    cases hf with
    | idle =>
      rw [List.map_nil, List.nil_append, List.mem_singleton] at he
      subst he
      cases hend
    | round id stroke finished t hover holdest hs hf =>
      cases hf with
      | cleared =>
        rw [List.map_nil, List.nil_append, List.mem_singleton] at he
        subst he
        cases hend
      | ended stroke' hs' hcl =>
        cases hs.symm.trans hs'
        simp [hover, holdest, hcl]
  | kept =>
    rw [List.mem_singleton.1 he] at hend
    cases hend
  | forgot => cases he
  | ended envelope payload userId stroke hs hu hcl =>
    obtain rfl := drawingCall_eq_finish hcall
    simp [commits, hs, hu, hcl]
  | undone =>
    rw [List.mem_singleton.1 he] at hend
    cases hend
  | cleared =>
    rw [List.mem_singleton.1 he] at hend
    cases hend

/-! ### The life of a room -/

variable {s₀ s' : RoomState} {turns later : List Turn}

/-- A room that forgets no stroke holds what a client of its events shows. -/
lemma RoomRun.mirrors (r : RoomRun remembers s₀ turns s) (h₀ : ∃ wallMs, s₀.drawing = .new wallMs) :
    s.drawing.Mirrors (replay (published turns)) := by
  obtain ⟨wallMs, hnew⟩ := h₀
  have hb₀ : s₀.drawing.Bookkept := hnew ▸ .new wallMs
  induction r with
  | start => exact hnew ▸ mirrors_new wallMs
  | turn t r hg ih =>
    have hb := r.bookkept hb₀
    obtain ⟨events, drawing, hd⟩ := Section.run_draws hb t.ran
    have hroom (hend : ∃ e ∈ events, e.isEnd = true) :
        t.before.drawing.committedOrder.length ≠ maxCommittedStrokes := by
      intro hfull
      have hforgets : t.forgets = false := hg
      simp [Turn.forgets, Turn.commits_of_end hd hend, hfull] at hforgets
    have hm := ih.drawn hb hd.drawn hroom
    rw [published_append, published_singleton, replay, List.foldl_append, Turn.items, hd.items_eq,
      foldl_numbered, hd.drawing_eq]
    exact hm.congr rfl rfl rfl

/-- The items up to a room's sequence are those it has published. -/
lemma RoomRun.upTo {guard guard' : Turn → Prop} (r : RoomRun guard s₀ turns s)
    (r' : RoomRun guard' s later s') (hb₀ : s₀.drawing.Bookkept) :
    ((published turns ++ published later).filter fun i => i.seq ≤ s.drawing.seq) =
      published turns := by
  have hearly := (r.numbered hb₀).2
  have hlate := (r'.numbered (r.bookkept hb₀)).2
  rw [List.filter_append, List.filter_eq_self.2, List.filter_eq_nil_iff.2, List.append_nil]
  · intro i hi
    simpa using (hlate i hi).1
  · intro i hi
    simpa using (hearly i hi).2

/-- **A `DRAW_SYNC` is the fold of the event log.**  While a room forgets no stroke, the snapshot
taken at sequence number `S` shows what a client shows that got the events numbered up to `S`, also
when the room goes on. -/
theorem drawSync_shows (h₀ : ∃ wallMs, s₀.drawing = .new wallMs)
    (r : RoomRun remembers s₀ turns s) (r' : RoomRun (fun _ => True) s later s') :
    Shows (replay ((published turns ++ published later).filter
      fun i => i.seq ≤ s.drawing.snapshot.seq)) s.drawing.snapshot := by
  have hb₀ : s₀.drawing.Bookkept := by
    obtain ⟨wallMs, hnew⟩ := h₀
    exact hnew ▸ .new wallMs
  change Shows (replay ((published turns ++ published later).filter
    fun i => i.seq ≤ s.drawing.seq)) s.drawing.snapshot
  rw [r.upTo r' hb₀]
  exact (r.mirrors h₀).shows (r.bookkept hb₀)

/-! ### One stroke too many -/

namespace Crowded

def key : PubKey := Vector.replicate 32 0

/-- The room of host `7`. -/
def start : RoomState := .new 1 "ABCDEF" "t" 7 key true 0 Cap.host 0

/-- Every signature verifies and nothing is split. -/
def env : SectionEnv where
  cfg := { maxParticipants := 8, hostDisconnectGraceMs := 30000, participantStaleAfterMs := 300000,
           participantDisconnectAfterMs := 15000 }
  crates :=
    { verifyManifest := fun _ => true
      fromBase64 := fun _ => none
      uuidToString := toString
      manifestHash := fun _ => .error ""
      splitPublished := fun _ _ _ => none
      splitResponse := fun _ _ _ => none
      verifyStroke := fun _ _ _ => true
      verifySignal := fun _ _ _ => true }
  clockMs := 0

def store : Store := ⟨.empty, []⟩

def envelope : Envelope where
  roomId := some 1
  sender := some ⟨7, List.replicate 32 0, List.replicate 64 0⟩
  body := .other
  serializedLen := 0

/-- The `n`-th stroke, counted from `0`; its id is `n + 1`. -/
def payload (n : ℕ) : StrokeBeginPayload where
  strokeId := n + 1
  tool := .pen
  color := "#fff"
  width := 0x3F800000
  x := 0
  y := 0
  pressure := 0
  tsMs := 0

def begin (n : ℕ) : Section := .strokeBegin envelope (.ok (payload n)) 7 key 0
def finish (n : ℕ) : Section := .strokeEnd envelope (.ok ⟨n + 1, 0⟩) 7

/-- The room after `n` strokes. -/
structure Stacked (n : ℕ) (s : RoomState) : Prop where
  room : ∃ drawing, s = { start with drawing }
  pending : ∀ k, s.drawing.pending.get k = none
  order : s.drawing.committedOrder = (List.range n).map (· + 1)

variable {n : ℕ} {s : RoomState}

lemma Stacked.accepts (hs : Stacked n s) (hb : s.drawing.Bookkept) :
    strokeBeginError env.crates.verifyStroke envelope s 7 key (payload n) = none := by
  have hp : (payload n).strokeId ∉ s.drawing.pending := AList.get_eq_none.1 (hs.pending _)
  have hc : s.drawing.ownerOf (payload n).strokeId = none := by
    refine AList.get_eq_none.2 fun hmem => ?_
    rw [← hb.ordered.mem_iff, hs.order] at hmem
    simp [payload] at hmem
  have hzero : validateUnitRange 0 = true := by decide
  have hwidth : (F32.isFinite 0x3F800000 && F32.pos 0x3F800000) = true := by decide
  have hrange : (!validateUnitRange (payload n).x || !validateUnitRange (payload n).y ||
      !validateUnitRange (payload n).pressure ||
      !((payload n).width.isFinite && (payload n).width.pos)) = false := by
    simp only [payload, hzero, hwidth]
    rfl
  have hsig : verifyStrokeBeginSignature env.crates.verifyStroke envelope (payload n) 7 key =
      .ok () := rfl
  rw [strokeBeginError, hrange, hsig]
  simp [hp, hc]

/-- One more stroke begins. -/
lemma Stacked.begins (hs : Stacked n s) (hb : s.drawing.Bookkept) :
    ∃ t : Turn, t.before = s ∧ t.forgets = false ∧
      t.out.state = { s with drawing :=
        { s.drawing.opened ⟨7, key, 0, false⟩ (payload n) with seq := s.drawing.seq + 1 } } := by
  obtain ⟨finished, u, hf, hrun⟩ := handleStrokeBegin_accepted hb (hs.accepts hb) 0
  have hidle : finished = [] ∧ u = s.drawing := by
    cases hf with
    | idle => exact ⟨rfl, rfl⟩
    | round id stroke finished t _ _ hp => simp [hs.pending] at hp
  obtain ⟨rfl, rfl⟩ := hidle
  have hmay : s.presentCan 7 .drawing .drawBegin = true := by
    obtain ⟨drawing, rfl⟩ := hs.room
    change start.presentCan 7 .drawing .drawBegin = true
    decide
  have hsec : (begin n).run env store s = some (drawn env.crates.splitPublished s.id store
      (.ofEvents [.strokeBegin (envelope.roomId.getD s.id) 7 (payload n)],
        { s with drawing := s.drawing.opened ⟨7, key, 0, false⟩ (payload n) })) := by
    simp only [begin, Section.run, strokeBeginLocked, hmay, Bool.not_true, Bool.false_eq_true,
      if_false, hrun]
    rfl
  refine ⟨⟨env, store, begin n, s, _, hsec⟩, rfl, ?_, rfl⟩
  have hnone : s.drawing.oldestOpen 7 = none := by
    cases ho : s.drawing.oldestOpen 7 with
    | none => rfl
    | some e =>
      have := AList.get_eq_some_iff.2 (List.mem_filter.1 (least_mem ho)).1
      simp [hs.pending] at this
  simp [Turn.forgets, Turn.commits, begin, hnone]

/-- It ends. -/
lemma Stacked.ends {s₁ : RoomState} (hs : Stacked n s) (hs₁ : s₁ = { s with drawing :=
      { s.drawing.opened ⟨7, key, 0, false⟩ (payload n) with seq := s.drawing.seq + 1 } })
    (hb₁ : s₁.drawing.Bookkept) :
    ∃ (t : Turn) (d : StrokeBookkeeping), t.before = s₁ ∧
      (n ≠ maxCommittedStrokes → t.forgets = false) ∧
      t.items = [(RoomEvent.strokeEnd 1 7 ⟨n + 1, 0⟩).item s₁.id (d.seq + 1)] ∧
      s₁.drawing.Ends (n + 1) 7 0 d ∧
      t.out.state = { s₁ with drawing := { d with seq := d.seq + 1 } } := by
  have hp : s₁.drawing.pending.get (StrokeEndPayload.mk (n + 1) 0).strokeId =
      some ⟨7, key, 0, false⟩ := by
    rw [hs₁]
    exact AList.get_insert_self _ _ _
  obtain ⟨d, he, hrun⟩ := handleStrokeEnd_accepted hb₁ hp rfl envelope
  have hsec : (finish n).run env store s₁ = some (drawn env.crates.splitPublished s₁.id store
      (.ofEvents [.strokeEnd (envelope.roomId.getD s₁.id) 7 ⟨n + 1, 0⟩],
        { s₁ with drawing := d })) := by
    simp only [finish, Section.run, hrun]
    rfl
  refine ⟨⟨env, store, finish n, s₁, _, hsec⟩, d, rfl, fun hn => ?_, rfl, he, rfl⟩
  have hlen : s₁.drawing.committedOrder.length = n := by
    rw [hs₁]
    change s.drawing.committedOrder.length = n
    simp [hs.order]
  simp [Turn.forgets, hlen, hn]

/-- A stroke that was begun and ended in a room of `n` strokes. -/
lemma Stacked.ended {s₁ : RoomState} (hs : Stacked n s) (hs₁ : s₁ = { s with drawing :=
      { s.drawing.opened ⟨7, key, 0, false⟩ (payload n) with seq := s.drawing.seq + 1 } })
    {d : StrokeBookkeeping} (he : s₁.drawing.Ends (n + 1) 7 0 d) :
    (∀ k, d.pending.get k = none) ∧
      (n ≠ maxCommittedStrokes → d.committedOrder = (List.range (n + 1)).map (· + 1)) ∧
      (n = maxCommittedStrokes → d.holder 1 = none) := by
  obtain ⟨u, gone, hc, rfl⟩ := he
  obtain ⟨hpending, hcommitted, horder, -⟩ := recordEnd_frame u (n + 1) 0
  have hpend (k : Uuid) : (u.recordEnd (n + 1) 0).pending.get k = none := by
    rw [hpending, hc.pending_eq, closed, AList.get_erase]
    split
    · rfl
    · rename_i hk
      rw [hs₁]
      simp [StrokeBookkeeping.opened, AList.get_insert, payload, hk, hs.pending]
  have hfrom : (s₁.drawing.closed (n + 1)).committedOrder = (List.range n).map (· + 1) := by
    rw [hs₁]
    exact hs.order
  have hsplit := hc.order_eq
  have hfull := hc.full
  rw [hfrom] at hsplit hfull
  refine ⟨hpend, fun hn => ?_, fun hn => ?_⟩
  · have hgone : gone = [] := List.eq_nil_iff_forall_not_mem.2 fun k hk =>
      hn (by simpa using (hfull k hk).2)
    rw [horder, ← List.nil_append u.committedOrder, ← hgone, ← hsplit, List.range_succ]
    simp
  · -- one too many for the cap, so the first stroke is forgotten
    have hlen : gone.length ≠ 0 := by
      have hlen := congrArg List.length hsplit
      have hle := hc.ordered.length_le
      simp only [List.length_append, List.length_map, List.length_range, List.length_singleton]
        at hlen
      omega
    obtain ⟨k, hk⟩ := List.exists_mem_of_length_pos (Nat.pos_of_ne_zero hlen)
    have hhead := (hfull k hk).1
    have hk1 : k = 1 := by
      have hpos : 0 < n := by
        rw [hn]
        decide
      obtain ⟨m, rfl⟩ := Nat.exists_eq_succ_of_ne_zero hpos.ne'
      simpa [List.range_succ_eq_map, eq_comm] using hhead
    have hnone : (u.recordEnd (n + 1) 0).committed.get 1 = none := by
      rw [hcommitted, hc.committed_get, if_pos (hk1 ▸ hk)]
    simp [holder, hnone, hpend]

/-- Rooms with any number of strokes up to the cap, none forgotten. -/
lemma exists_stacked (n : ℕ) (hn : n ≤ maxCommittedStrokes) :
    ∃ turns s, RoomRun remembers start turns s ∧ Stacked n s := by
  have hb₀ : start.drawing.Bookkept := .new 0
  induction n with
  | zero => exact ⟨[], start, .start, ⟨start.drawing, rfl⟩, fun k => rfl, rfl⟩
  | succ n ih =>
    obtain ⟨turns, s, r, hs⟩ := ih (Nat.le_of_succ_le hn)
    obtain ⟨t₁, rfl, hg₁, hout₁⟩ := hs.begins (r.bookkept hb₀)
    have r₁ := RoomRun.turn t₁ r hg₁
    obtain ⟨t₂, d, hb₂, hg₂, -, he, hout₂⟩ := hs.ends hout₁ (r₁.bookkept hb₀)
    have hlt : n ≠ maxCommittedStrokes := by omega
    have r₂ := RoomRun.turn t₂ (hb₂ ▸ r₁) (hg₂ hlt)
    obtain ⟨hpending, horder, -⟩ := hs.ended hout₁ he
    refine ⟨_, _, r₂, ?_, ?_, ?_⟩
    · obtain ⟨drawing, hroom⟩ := hs.room
      exact ⟨_, by rw [hout₂, hout₁, hroom]⟩
    · rw [hout₂]
      exact hpending
    · rw [hout₂]
      exact horder hlt

end Crowded

/-- **A snapshot lacks a stroke**: once more than `maxCommittedStrokes` strokes have been drawn, the
first one is on the screen of every client but those that got a `DRAW_SYNC`. -/
theorem drawSync_fails : ∃ turns s, RoomRun (fun _ => True) Crowded.start turns s ∧
    ¬Shows (replay ((published turns).filter fun i => i.seq ≤ s.drawing.snapshot.seq))
      s.drawing.snapshot := by
  have hb₀ : Crowded.start.drawing.Bookkept := .new 0
  obtain ⟨turns, s, r, hs⟩ := Crowded.exists_stacked maxCommittedStrokes le_rfl
  obtain ⟨t₁, rfl, hg₁, hout₁⟩ := hs.begins (r.bookkept hb₀)
  have r₁ := RoomRun.turn t₁ r hg₁
  obtain ⟨t₂, d, hb₂, -, hitems, he, hout₂⟩ := hs.ends hout₁ (r₁.bookkept hb₀)
  have r₂ := RoomRun.turn t₂ (hb₂ ▸ r₁.mono fun _ _ => trivial) trivial
  refine ⟨_, _, r₂, fun hshows => ?_⟩
  have hupTo := r₂.upTo (.start : RoomRun (fun _ => True) _ [] _) hb₀
  simp only [published, List.flatMap_nil, List.append_nil] at hupTo
  change Shows (replay ((published _).filter fun i => i.seq ≤ t₂.out.state.drawing.seq)) _ at hshows
  rw [published, hupTo] at hshows
  -- the first stroke is on the canvas before the last one ends, and stays there
  have hfirst : t₁.out.state.drawing.holder 1 ≠ none := by
    have hmem : (1 : Uuid) ∈ t₁.out.state.drawing.committedOrder := by
      rw [hout₁]
      change 1 ∈ t₁.before.drawing.committedOrder
      rw [hs.order]
      exact List.mem_map.2 ⟨0, List.mem_range.2 (by decide), rfl⟩
    obtain ⟨owner, howner⟩ :=
      AList.exists_get (((r₁.bookkept hb₀).ordered.mem_iff 1).1 hmem)
    rw [holder_of_committed howner]
    exact Option.some_ne_none _
  have hcanvas := (r₁.mirrors ⟨0, rfl⟩).shows (r₁.bookkept hb₀)
  obtain ⟨x, hx⟩ := Option.ne_none_iff_exists'.1 hfirst
  have hshown : (1 : Uuid) ∈ replay (published (turns ++ [t₁])) := by
    rw [hcanvas.mem_iff]
    exact List.mem_map.2 ⟨_, (mem_snapshot (r₁.bookkept hb₀)).2 ⟨1, x.1, x.2, hx, rfl⟩, by simp⟩
  have hkept : (1 : Uuid) ∈ replay (published (turns ++ [t₁] ++ [t₂])) := by
    rw [published_append, published_singleton, hitems, replay, List.foldl_append]
    change 1 ∈ Canvas.change (replay (published (turns ++ [t₁]))) (maxCommittedStrokes + 1) _
    rw [AList.mem_iff_get, Canvas.get_change, if_neg (by decide), ← AList.mem_iff_get]
    exact hshown
  obtain ⟨e, hmem, hid⟩ := List.mem_map.1 ((hshows.mem_iff 1).1 hkept)
  obtain ⟨id, owner, ended, hholder, rfl⟩ := (mem_snapshot (r₂.bookkept hb₀)).1 hmem
  rw [syncEntry_strokeId] at hid
  subst hid
  have hgone := (hs.ended hout₁ he).2.2 rfl
  rw [hout₂] at hholder
  have hsame : StrokeBookkeeping.holder { d with seq := d.seq + 1 } 1 = d.holder 1 :=
    holder_congr rfl rfl
  simp [hsame, hgone] at hholder

/-- The first stroke of that room, begun and ended. -/
theorem drawSync_shows_first : ∃ turns s, RoomRun remembers Crowded.start turns s ∧
    turns.length = 2 ∧ Shows (replay ((published turns ++ published []).filter
      fun i => i.seq ≤ s.drawing.snapshot.seq)) s.drawing.snapshot := by
  have hb₀ : Crowded.start.drawing.Bookkept := .new 0
  have hs : Crowded.Stacked 0 Crowded.start := ⟨⟨_, rfl⟩, fun k => rfl, rfl⟩
  obtain ⟨t₁, hb₁, hg₁, hout₁⟩ := hs.begins hb₀
  have r₁ := RoomRun.turn t₁ (hb₁ ▸ .start : RoomRun remembers Crowded.start [] t₁.before) hg₁
  obtain ⟨t₂, d, hb₂, hg₂, -⟩ := hs.ends hout₁ (r₁.bookkept hb₀)
  have r₂ := RoomRun.turn t₂ (hb₂ ▸ r₁) (hg₂ (by decide))
  exact ⟨_, _, r₂, rfl, drawSync_shows ⟨0, rfl⟩ r₂ .start⟩

end Locast.Rooms
