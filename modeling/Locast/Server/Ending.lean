import Locast.Server.Log
import Locast.Server.Publishing
import Mathlib.Algebra.Order.BigOperators.Group.List
import Mathlib.Algebra.Order.Group.Nat

/-!
# The end of a room

What happens to a room that ends, over every run: the end is announced on its channel before the
channel goes, its row is closed, its handle, code, channel and cached manifest are removed, and
nothing comes back.  All of this but the row and the handle supposes that the room has its channel
when it ends: `create` inserts the handle first.  `ClosingInv` relates what the tasks still have to
do (`Dues`) to what the run has done and to the registry's maps.
-/

namespace Locast.Server

open Locast.Lib Locast.Protocol Locast.Rooms

/-! ### Steps of an end -/

/-- A section of `R` told its task that the room has ended. -/
def Step.ends (R : Uuid) (d : Step) : Bool :=
  match d with
  | ⟨_, .section id sec, _, r, _, _⟩ => id = R && sec.ends r
  | _ => false

/-- A `ROOM_CLOSED` is published for `R`. -/
def Step.announcesEnd (R : Uuid) (d : Step) : Bool :=
  match d.effect with
  | .publish id item => id = R && item.payload.isClosed
  | _ => false

/-- The row of `R` is closed: by `end_room`, or in the section that ends the room. -/
def Step.persistsEnd (R : Uuid) (d : Step) : Bool :=
  match d with
  | ⟨_, .store (.endRoom id _), _, _, _, _⟩ => id = R
  | ⟨_, .section id sec, _, r, _, _⟩ => id = R && sec.ends r && closesRow sec
  | _ => false

/-- `R` is removed from one of the registry's maps. -/
def Step.removes (map : RegistryMap) (R : Uuid) (d : Step) : Bool :=
  match d.effect with
  | .remove map' id => map' = map && id = R
  | _ => false

/-- `R` gets its handle. -/
def Step.creates (R : Uuid) (d : Step) : Bool :=
  match d.effect with
  | .insertRoom s => s.id = R
  | _ => false

/-- `R` gets its code. -/
def Step.codes (R : Uuid) (d : Step) : Bool :=
  match d.effect with
  | .insertCode _ id => id = R
  | _ => false

/-- `R` gets its channel. -/
def Step.opens (R : Uuid) (d : Step) : Bool :=
  match d.effect with
  | .insertChannel id => id = R
  | _ => false

/-- The room has ended. -/
def ServerState.Ended (st : ServerState) (R : Uuid) : Prop :=
  ∃ s, st.heap.get R = some s ∧ s.state = .ended

instance (st : ServerState) (R : Uuid) : Decidable (st.Ended R) :=
  decidable_of_iff ((st.heap.get R).any fun s => s.state = .ended) (by
    simp [ServerState.Ended, Option.any_eq_true])

/-- A tick finds the grace of a room run out that has ended before. -/
def Step.endsAgain (R : Uuid) (d : Step) : Bool := d.ends R && decide (d.before.Ended R)

/-- The room ends while it has no channel. -/
def Step.endsUnheard (R : Uuid) (d : Step) : Bool :=
  d.ends R && !decide (d.before.Ended R) && (d.before.tx.get R).isNone

/-- The number of steps that pass the test. -/
def tally (test : Step → Bool) (h : List Step) : ℕ := h.countP test

/-- The number of `ROOM_CLOSED` on the channel of `R`. -/
def closings (R : Uuid) (h : List Step) : ℕ :=
  (sentTo R h).countP fun item => item.payload.isClosed

@[simp] lemma tally_nil (test : Step → Bool) : tally test [] = 0 := rfl

@[simp] lemma tally_append (test : Step → Bool) (h : List Step) (d : Step) :
    tally test (h ++ [d]) = tally test h + if test d then 1 else 0 := by
  simp [tally, List.countP_append, List.countP_singleton]

@[simp] lemma closings_append (R : Uuid) (h : List Step) (d : Step) : closings R (h ++ [d]) =
    closings R h + (d.sent R).countP fun item => item.payload.isClosed := by
  simp [closings]

/-! ### What the tasks have to do -/

/-- The sum of what the tasks have to do of one kind. -/
def due (kind : Dues → ℕ) (gs : List Dues) : ℕ := (gs.map kind).sum

lemma due_append (kind : Dues → ℕ) (gs : List Dues) (g : Dues) :
    due kind (gs ++ [g]) = due kind gs + kind g := by simp [due]

/-- One task's share changes. -/
lemma due_set (kind : Dues → ℕ) {gs : List Dues} {i : ℕ} {g : Dues} (hi : gs[i]? = some g)
    (g' : Dues) : due kind (gs.set i g') + kind g = due kind gs + kind g' := by
  induction gs generalizing i with
  | nil => simp at hi
  | cons a gs ih =>
    cases i with
    | zero =>
      obtain rfl : a = g := by simpa using hi
      simp only [due, List.set_cons_zero, List.map_cons, List.sum_cons]
      omega
    | succ i =>
      have := ih (by simpa using hi)
      simp only [due, List.set_cons_succ, List.map_cons, List.sum_cons] at this ⊢
      omega

lemma le_due (kind : Dues → ℕ) {gs : List Dues} {i : ℕ} {g : Dues} (hi : gs[i]? = some g) :
    kind g ≤ due kind gs := by
  have hg : kind g ∈ gs.map kind := List.mem_map.2 ⟨g, List.mem_of_getElem? hi, rfl⟩
  exact List.single_le_sum (fun _ _ => Nat.zero_le _) _ hg

lemma due_le {kind kind' : Dues → ℕ} {gs : List Dues} (h : ∀ g ∈ gs, kind g ≤ kind' g) :
    due kind gs ≤ due kind' gs := List.sum_le_sum h

/-- Tasks with nothing left to do. -/
lemma due_eq_zero {kind : Dues → ℕ} {gs : List Dues} (h : ∀ g ∈ gs, kind g = 0) :
    due kind gs = 0 :=
  List.sum_eq_zero fun n hn => by
    obtain ⟨g, hg, rfl⟩ := List.mem_map.1 hn
    exact h g hg

/-! ### The invariant -/

variable {R : Uuid} {g : Dues} {gs : List Dues} {i : ℕ}

lemma Dues.Ordered.next {e : Effect} (hg : g.Ordered) (ha : (closing R).allows g e) (r : e.Resp) :
    ((closing R).next g e r).Ordered := by
  obtain ⟨h₁, h₂, h₃, h₄⟩ := hg
  cases e with
  | «section» id sec =>
    simp only [closing]
    split
    · refine ⟨Nat.succ_le_succ h₁, ?_, h₃, h₄⟩
      simp only [Dues.ended]
      split <;> omega
    · exact ⟨h₁, h₂, h₃, h₄⟩
  | publish id item =>
    simp only [closing]
    split
    · exact ⟨(Nat.sub_le _ _).trans h₁, h₂, h₃, h₄⟩
    · exact ⟨h₁, h₂, h₃, h₄⟩
  | store request =>
    cases request with
    | endRoom id =>
      simp only [closing]
      split
      · exact ⟨h₁, (Nat.sub_le _ _).trans h₂, h₃, h₄⟩
      · exact ⟨h₁, h₂, h₃, h₄⟩
    | _ => exact ⟨h₁, h₂, h₃, h₄⟩
  | remove map id =>
    simp only [closing] at ha ⊢
    split
    · rename_i hid
      have ha := ha hid
      cases map with
      | byId =>
        obtain ⟨ha, hp⟩ := ha
        refine ⟨Nat.le_sub_one_of_lt ha, Nat.le_sub_one_of_lt hp, ?_, h₄⟩
        simp only [Dues.removed]
        split <;> omega
      | channel => exact ⟨h₁, h₂, (Nat.sub_le _ _).trans h₃, h₄⟩
      | manifestCache => exact ⟨h₁, h₂, Nat.le_sub_one_of_lt ha, h₄⟩
    · exact ⟨h₁, h₂, h₃, h₄⟩
  | insertRoom s =>
    simp only [closing]
    split
    · exact ⟨h₁, h₂, h₃, Nat.succ_le_succ h₄⟩
    · exact ⟨h₁, h₂, h₃, h₄⟩
  | insertCode code id =>
    simp only [closing]
    split
    · exact ⟨h₁, h₂, h₃, (Nat.sub_le _ _).trans h₄⟩
    · exact ⟨h₁, h₂, h₃, h₄⟩
  | insertChannel id =>
    simp only [closing] at ha ⊢
    split
    · rename_i hid
      exact ⟨h₁, h₂, h₃, Nat.le_sub_one_of_lt (ha hid)⟩
    · exact ⟨h₁, h₂, h₃, h₄⟩
  | _ => exact ⟨h₁, h₂, h₃, h₄⟩

/-- **What the tasks have to do about `R`, what the run has done, and where `R` is.**  What is said
of the channel after the end supposes that `R` did not end without one. -/
structure ClosingInv (R : Uuid) (h : List Step) (st : ServerState) (gs : List Dues) : Prop where
  ordered : ∀ g ∈ gs, g.Ordered
  announced : tally (Step.announcesEnd R) h + due Dues.announce gs = tally (Step.ends R) h
  persisted : tally (Step.persistsEnd R) h + due Dues.persist gs = tally (Step.ends R) h
  removed : tally (Step.removes .byId R) h + due Dues.remove gs = tally (Step.ends R) h
  uncached : tally (Step.removes .manifestCache R) h + due Dues.uncache gs =
    tally (Step.removes .byId R) h
  cleared : tally (Step.removes .channel R) h + due Dues.channel gs =
    min 1 (tally (Step.removes .byId R) h)
  once : tally (Step.ends R) h ≤ tally (Step.endsAgain R) h + 1
  ended : st.Ended R ↔ 0 < tally (Step.ends R) h
  byId : R ∈ st.byId ↔ (st.heap.get R).isSome ∧ tally (Step.removes .byId R) h = 0
  created : tally (Step.creates R) h ≤ 1
  room : 0 < tally (Step.creates R) h → (st.heap.get R).isSome
  coded : tally (Step.codes R) h + due Dues.coding gs = tally (Step.creates R) h
  opened : tally (Step.opens R) h + due Dues.opening gs = tally (Step.creates R) h
  channel : tally (Step.removes .channel R) h = 0 → ((st.tx.get R).isSome ↔
    (st.heap.get R).isSome ∧ tally (Step.opens R) h = tally (Step.creates R) h)
  settled : 0 < tally (Step.ends R) h → tally (Step.endsUnheard R) h = 0 →
    tally (Step.opens R) h = tally (Step.creates R) h
  closed : 0 < tally (Step.removes .channel R) h → tally (Step.endsUnheard R) h = 0 →
    st.tx.get R = none
  cache : (st.manifestCache.get R).isSome →
    (st.heap.get R).isSome ∧ tally (Step.removes .manifestCache R) h = 0
  sent : tally (Step.removes .channel R) h = 0 → tally (Step.endsUnheard R) h = 0 →
    closings R h = tally (Step.announcesEnd R) h
  heard : 0 < tally (Step.removes .channel R) h → tally (Step.endsUnheard R) h = 0 →
    1 ≤ closings R h
  bounded : closings R h ≤ tally (Step.announcesEnd R) h

variable {h : List Step} {st : ServerState}

/-- A task that has to announce, to persist or to remove knows of an end. -/
lemma ClosingInv.ended_of_due (hI : ClosingInv R h st gs) (kind : Dues → ℕ)
    (hkind : due kind gs ≤ tally (Step.ends R) h) (hi : gs[i]? = some g) (hg : 0 < kind g) :
    st.Ended R :=
  hI.ended.2 (Nat.lt_of_lt_of_le (Nat.lt_of_lt_of_le hg (le_due kind hi)) hkind)

lemma ServerState.Ended.isSome (h : st.Ended R) : (st.heap.get R).isSome := by
  obtain ⟨s, hs, -⟩ := h
  rw [hs]
  rfl

/-- No end of `R` comes before its creation. -/
lemma ClosingInv.unborn (hI : ClosingInv R h st gs) (hR : st.heap.get R = none) :
    tally (Step.ends R) h = 0 := by
  by_contra hpos
  have := (hI.ended.2 (Nat.pos_of_ne_zero hpos)).isSome
  simp [hR] at this

/-! ### Steps beside the end -/

lemma set_self {α : Type} {gs : List α} {g : α} (hi : gs[i]? = some g) : gs.set i g = gs := by
  obtain ⟨hlt, rfl⟩ := List.getElem?_eq_some_iff.1 hi
  exact List.set_getElem_self hlt

lemma ClosingInv.ordered_set (hI : ClosingInv R h st gs) (hi : gs[i]? = some g) {e : Effect}
    (ha : (closing R).allows g e) (r : e.Resp) :
    ∀ g' ∈ gs.set i ((closing R).next g e r), g'.Ordered := by
  intro g' hg'
  rcases List.mem_or_eq_of_mem_set hg' with hg' | rfl
  · exact hI.ordered g' hg'
  · exact (hI.ordered g (List.mem_of_getElem? hi)).next ha r

/-- The step does nothing about the end of `R` that the channel could tell, and removes nothing. -/
structure Step.Calm (R : Uuid) (d : Step) : Prop where
  ends : d.ends R = false
  announces : d.announcesEnd R = false
  removes : ∀ map, d.removes map R = false
  closings : (d.sent R).countP (fun item => item.payload.isClosed) = 0

/-- What a calm step has to keep: one task does what was due, and the maps follow. -/
structure ClosingInv.Kept (R : Uuid) (h : List Step) (d : Step) (g g' : Dues) : Prop where
  announce : g'.announce = g.announce
  persist : (if d.persistsEnd R then 1 else 0) + g'.persist = g.persist
  remove : g'.remove = g.remove
  channel : g'.channel = g.channel
  uncache : g'.uncache = g.uncache
  coding : (if d.codes R then 1 else 0) + g'.coding = g.coding + if d.creates R then 1 else 0
  opening : (if d.opens R then 1 else 0) + g'.opening = g.opening + if d.creates R then 1 else 0
  ended : d.after.Ended R ↔ d.before.Ended R
  byId : tally (Step.removes .byId R) h = 0 → (R ∈ d.after.byId ↔ (d.after.heap.get R).isSome)
  gone : tally (Step.removes .byId R) h ≠ 0 → R ∉ d.after.byId
  room : (d.before.heap.get R).isSome ∨ d.creates R → (d.after.heap.get R).isSome
  created : d.creates R → tally (Step.creates R) h = 0
  opened : tally (Step.removes .channel R) h = 0 → ((d.after.tx.get R).isSome ↔
    (d.after.heap.get R).isSome ∧
      tally (Step.opens R) h + (if d.opens R then 1 else 0) =
        tally (Step.creates R) h + if d.creates R then 1 else 0)
  settled : 0 < tally (Step.ends R) h → tally (Step.endsUnheard R) h = 0 →
    d.opens R = false ∧ d.creates R = false
  closed : 0 < tally (Step.removes .channel R) h → tally (Step.endsUnheard R) h = 0 →
    d.before.tx.get R = none → d.after.tx.get R = none
  cache : (d.after.manifestCache.get R).isSome → (d.before.manifestCache.get R).isSome ∨
    (d.before.heap.get R).isSome ∧ ¬d.before.Ended R

/-- **A calm step keeps the invariant.** -/
lemma ClosingInv.calm {d : Step} {g' : Dues} (hI : ClosingInv R h d.before gs)
    (hi : gs[i]? = some g) (hd : d.Calm R) (hord : ∀ g ∈ gs.set i g', g.Ordered)
    (hk : ClosingInv.Kept R h d g g') : ClosingInv R (h ++ [d]) d.after (gs.set i g') := by
  have hagain : d.endsAgain R = false := by simp [Step.endsAgain, hd.ends]
  have hunheard : d.endsUnheard R = false := by simp [Step.endsUnheard, hd.ends]
  have hset (kind : Dues → ℕ) := due_set kind hi g'
  constructor
  case ordered => exact hord
  case cache =>
    intro hc
    simp only [tally_append, hd.removes, Bool.false_eq_true, if_false, Nat.add_zero]
    rcases hk.cache hc with hc | ⟨hsome, hopen⟩
    · exact ⟨hk.room (.inl (hI.cache hc).1), (hI.cache hc).2⟩
    · have hzero : ¬0 < tally (Step.ends R) h := fun hpos => hopen (hI.ended.2 hpos)
      have := hI.removed
      have := hI.uncached
      exact ⟨hk.room (.inl hsome), by omega⟩
  all_goals simp only [tally_append, closings_append, hd.ends, hd.announces, hd.removes,
    hd.closings, hagain, hunheard, hk.ended, Bool.false_eq_true, if_false, Nat.add_zero]
  case announced =>
    have h₁ := hset Dues.announce
    rw [hk.announce] at h₁
    have := hI.announced
    omega
  case persisted =>
    have h₁ := hset Dues.persist
    have := hk.persist
    have := hI.persisted
    omega
  case removed =>
    have h₁ := hset Dues.remove
    rw [hk.remove] at h₁
    have := hI.removed
    omega
  case uncached =>
    have h₁ := hset Dues.uncache
    rw [hk.uncache] at h₁
    have := hI.uncached
    omega
  case cleared =>
    have h₁ := hset Dues.channel
    rw [hk.channel] at h₁
    have := hI.cleared
    omega
  case coded =>
    have h₁ := hset Dues.coding
    have := hk.coding
    have := hI.coded
    omega
  case opened =>
    have h₁ := hset Dues.opening
    have := hk.opening
    have := hI.opened
    omega
  case once => exact hI.once
  case ended => exact hI.ended
  case byId =>
    by_cases hzero : tally (Step.removes .byId R) h = 0
    · simpa [hzero] using hk.byId hzero
    · simpa [hzero] using hk.gone hzero
  case created =>
    have := hI.created
    split
    · rename_i hc
      rw [hk.created hc]
    · exact this
  case room =>
    intro hpos
    by_cases hc : d.creates R = true
    · exact hk.room (.inr hc)
    · exact hk.room (.inl (hI.room (by simpa [hc] using hpos)))
  case channel => exact hk.opened
  case settled =>
    intro hpos hzero
    obtain ⟨ho, hc⟩ := hk.settled hpos hzero
    simpa [ho, hc] using hI.settled hpos hzero
  case closed => exact fun hpos hzero => hk.closed hpos hzero (hI.closed hpos hzero)
  case sent => exact hI.sent
  case heard => exact hI.heard
  case bounded => exact hI.bounded

/-- The step has nothing to do with the end of `R` or its creation. -/
structure Step.Aside (R : Uuid) (d : Step) : Prop extends Step.Calm R d where
  persists : d.persistsEnd R = false
  creates : d.creates R = false
  codes : d.codes R = false
  opens : d.opens R = false
  ended : d.after.Ended R ↔ d.before.Ended R
  room : (d.after.heap.get R).isSome = (d.before.heap.get R).isSome
  byId : R ∈ d.after.byId ↔ R ∈ d.before.byId
  channel : (d.after.tx.get R).isSome = (d.before.tx.get R).isSome
  cache : (d.after.manifestCache.get R).isSome → (d.before.manifestCache.get R).isSome ∨
    (d.before.heap.get R).isSome ∧ ¬d.before.Ended R

/-- Where `R` is in the maps, before a step that leaves them alone. -/
lemma ClosingInv.kept {d : Step} {g' : Dues} (hI : ClosingInv R h d.before gs)
    (hends : d.after.Ended R ↔ d.before.Ended R)
    (hroom : (d.after.heap.get R).isSome = (d.before.heap.get R).isSome)
    (hbyId : R ∈ d.after.byId ↔ R ∈ d.before.byId)
    (htx : (d.after.tx.get R).isSome = (d.before.tx.get R).isSome)
    (hcache : (d.after.manifestCache.get R).isSome → (d.before.manifestCache.get R).isSome ∨
      (d.before.heap.get R).isSome ∧ ¬d.before.Ended R)
    (hcreates : d.creates R = false) (hopens : d.opens R = false)
    (hdues : g'.announce = g.announce ∧ g'.remove = g.remove ∧ g'.channel = g.channel ∧
      g'.uncache = g.uncache ∧ g'.opening = g.opening)
    (hpersist : (if d.persistsEnd R then 1 else 0) + g'.persist = g.persist)
    (hcoding : (if d.codes R then 1 else 0) + g'.coding = g.coding) :
    ClosingInv.Kept R h d g g' := by
  obtain ⟨h₁, h₂, h₃, h₄, h₅⟩ := hdues
  refine ⟨h₁, hpersist, h₂, h₃, h₄, by simpa [hcreates] using hcoding,
    by simp [hcreates, hopens, h₅], hends, ?_, ?_, ?_, ?_, ?_, fun _ _ => ⟨hopens, hcreates⟩, ?_,
    hcache⟩
  · intro hzero
    rw [hbyId, hroom, hI.byId]
    exact ⟨fun h => h.1, fun h => ⟨h, hzero⟩⟩
  · intro hne
    rw [hbyId, hI.byId]
    exact fun h => hne h.2
  · rw [hroom]
    simp [hcreates]
  · simp [hcreates]
  · simpa [htx, hroom, hcreates, hopens] using hI.channel
  · intro _ _ hnone
    rw [← Option.not_isSome_iff_eq_none, htx, hnone]
    simp

lemma ClosingInv.aside {d : Step} (hI : ClosingInv R h d.before gs) (hi : gs[i]? = some g)
    (hd : d.Aside R) : ClosingInv R (h ++ [d]) d.after gs := by
  have hself := set_self hi
  rw [← hself]
  refine hI.calm hi hd.toCalm (by rw [hself]; exact hI.ordered) ?_
  exact hI.kept hd.ended hd.room hd.byId hd.channel hd.cache hd.creates hd.opens
    ⟨rfl, rfl, rfl, rfl, rfl⟩ (by simp [hd.persists]) (by simp [hd.codes])

/-- A section closes no room on a channel. -/
lemma section_closings {env : Env} {op : Op} {inp : Input} {before : ServerState} {id : Uuid}
    {sec : Section} {s : RoomState} {out : SectionOutcome sec.Reply}
    (hrun : sec.run ⟨env.cfg, env.crates, inp.clockMs⟩ ⟨before.db, inp.faults⟩ s = some out) :
    (Step.sent R ⟨op, .section id sec, inp, out.reply, before, before.apply id out⟩).countP
      (fun item => item.payload.isClosed) = 0 := by
  rw [sent_section]
  split
  · refine List.countP_eq_zero.2 fun item hitem => ?_
    obtain ⟨pair, hpair, rfl⟩ := List.mem_map.1 hitem
    have hsends := Section.run_sends hrun pair (List.mem_filter.1 hpair).1
    simp [Section.sends_open hsends]
  · rfl

lemma ServerState.ended_put {heap : Heap} {s : RoomState} {st : ServerState}
    (h : st.heap = heap.put s) (hs : s.id = R) : st.Ended R ↔ s.state = .ended := by
  simp [ServerState.Ended, h, hs]

lemma ServerState.ended_congr {st st' : ServerState} (h : st'.heap.get R = st.heap.get R) :
    st'.Ended R ↔ st.Ended R := by simp [ServerState.Ended, h]

/-- A section of another room, or one that does not end its room. -/
lemma aside_section {env : Env} (op : Op) (inp : Input) {before : ServerState} {id : Uuid}
    {sec : Section} {s : RoomState} {out : SectionOutcome sec.Reply}
    (hs : before.heap.get id = some s)
    (hrun : sec.run ⟨env.cfg, env.crates, inp.clockMs⟩ ⟨before.db, inp.faults⟩ s = some out)
    (hends : ¬(id = R ∧ sec.ends out.reply = true)) :
    Step.Aside R ⟨op, .section id sec, inp, out.reply, before, before.apply id out⟩ := by
  have hid : out.state.id = id := (Section.run_framed hrun).id.trans (Heap.get_id hs)
  have hquiet : (decide (id = R) && sec.ends out.reply) = false := by
    rw [← Bool.not_eq_true, Bool.and_eq_true, decide_eq_true_eq]
    exact hends
  have hended : (before.apply id out).Ended R ↔ before.Ended R := by
    by_cases hR : id = R
    · subst hR
      have hiff := Section.ended_iff hrun
      rw [ServerState.ended_put (ServerState.apply_heap _ _ _) hid, hiff]
      simp only [not_and, Bool.not_eq_true, forall_const] at hends
      simp [ServerState.Ended, hs, hends]
    · refine ServerState.ended_congr ?_
      rw [ServerState.apply_heap, Heap.get_put, if_neg fun h => hR (hid ▸ h.symm)]
  refine ⟨⟨hquiet, rfl, fun _ => rfl, section_closings hrun⟩, ?_, rfl, rfl, rfl, hended, ?_,
    by simp, by simp [ServerState.apply_tx], fun hc => .inl (by simpa using hc)⟩
  · change (decide (id = R) && sec.ends out.reply && closesRow sec) = false
    rw [hquiet]
    rfl
  · change ((before.apply id out).heap.get R).isSome = _
    rw [ServerState.apply_heap, Heap.get_put, hid]
    split
    · rename_i h
      rw [h, hs]
      rfl
    · rfl

/-- A step that sends no `ROOM_CLOSED` to `R` and leaves the room and the registry alone. -/
lemma aside_publish (op : Op) (inp : Input) (before : ServerState) {id : Uuid}
    {item : BroadcastItem} (hitem : ¬(id = R ∧ item.payload.isClosed = true)) :
    Step.Aside R ⟨op, .publish id item, inp, (), before, before.publish id item⟩ := by
  have hquiet : (decide (id = R) && item.payload.isClosed) = false := by
    rw [← Bool.not_eq_true, Bool.and_eq_true, decide_eq_true_eq]
    exact hitem
  refine ⟨⟨rfl, hquiet, fun _ => rfl, ?_⟩, rfl, rfl, rfl, rfl, ServerState.ended_congr (by simp),
    by simp, by simp, by simp [ServerState.publish_tx], fun hc => .inl (by simpa using hc)⟩
  rw [sent_publish]
  split
  · rename_i h
    rw [List.countP_singleton, if_neg fun hp => hitem ⟨h.1, hp⟩]
  · rfl

lemma aside_remove (op : Op) (inp : Input) (before : ServerState) (map : RegistryMap) {id : Uuid}
    (hid : id ≠ R) :
    Step.Aside R ⟨op, .remove map id, inp, before.holds id map, before, before.remove map id⟩ := by
  have hne : ¬R = id := fun h => hid h.symm
  refine ⟨⟨rfl, rfl, fun _ => ?_, by rw [sent_remove]; rfl⟩, rfl, rfl, rfl, rfl,
    ServerState.ended_congr (by simp), by simp, ?_, ?_, fun hc => .inl ?_⟩
  · simp [Step.removes, hid]
  · rw [ServerState.remove_byId]
    split
    · simp [hne]
    · rfl
  · simp [ServerState.remove_tx, hne]
  · simpa [ServerState.remove_manifestCache, hne] using hc

/-- An insertion for another room. -/
lemma aside_insertRoom (op : Op) (inp : Input) (before : ServerState) {s : RoomState}
    (hid : s.id ≠ R) :
    Step.Aside R ⟨op, .insertRoom s, inp, (), before, before.insertRoom s⟩ := by
  have hne : ¬R = s.id := fun h => hid h.symm
  refine ⟨⟨rfl, rfl, fun _ => rfl, ?_⟩, rfl, decide_eq_false hid, rfl, rfl,
    ServerState.ended_congr ?_, ?_, ?_, rfl, fun hc => .inl hc⟩
  · rw [Step.sent_of_eq rfl]
    rfl
  · simp [hne]
  · simp [hne]
  · simp [hne]

lemma aside_insertCode (op : Op) (inp : Input) (before : ServerState) (code : String) {id : Uuid}
    (hid : id ≠ R) :
    Step.Aside R ⟨op, .insertCode code id, inp, (), before, before.insertCode code id⟩ := by
  refine ⟨⟨rfl, rfl, fun _ => rfl, ?_⟩, rfl, rfl, decide_eq_false hid, rfl,
    ServerState.ended_congr rfl, rfl, Iff.rfl, rfl, fun hc => .inl hc⟩
  rw [Step.sent_of_eq rfl]
  rfl

lemma aside_insertChannel (op : Op) (inp : Input) (before : ServerState) {id : Uuid}
    (hid : id ≠ R) :
    Step.Aside R ⟨op, .insertChannel id, inp, (), before, before.insertChannel id⟩ := by
  have hne : ¬R = id := fun h => hid h.symm
  refine ⟨⟨rfl, rfl, fun _ => rfl, by rw [sent_insertChannel]; rfl⟩, rfl, rfl, rfl,
    decide_eq_false hid, ServerState.ended_congr rfl, rfl, Iff.rfl, ?_, fun hc => .inl hc⟩
  simp [ServerState.insertChannel_tx, hne]

/-- A manifest is cached for a room that runs. -/
lemma aside_putManifest {crates : Crates} {op : Op} {inp : Input} {before : ServerState} {id : Uuid}
    {c : CachedManifest}
    (hl : Step.Lawful crates R ⟨op, .putManifest id c, inp, (), before, before.putManifest id c⟩) :
    Step.Aside R ⟨op, .putManifest id c, inp, (), before, before.putManifest id c⟩ := by
  refine ⟨⟨rfl, rfl, fun _ => rfl, ?_⟩, rfl, rfl, rfl, rfl, ServerState.ended_congr rfl,
    rfl, Iff.rfl, rfl, fun hc => ?_⟩
  · rw [Step.sent_of_eq rfl]
    rfl
  · replace hc : ((before.putManifest id c).manifestCache.get R).isSome := hc
    rw [ServerState.putManifest_manifestCache] at hc
    split at hc
    · rename_i hR
      obtain ⟨⟨⟨s, hs, hopen, -⟩, -⟩, -⟩ := hl.delivers c (if_pos hR.symm)
      right
      simp_all [ServerState.Ended]
    · exact .inl hc

/-- A manifest closes no room. -/
lemma isClosed_of_isManifest {payload : WirePayload} (h : payload.isManifest = true) :
    payload.isClosed = false := by
  cases payload <;> first | rfl | cases h

lemma aside_publishManifest (op : Op) (inp : Input) (before : ServerState) (split : SplitForWire)
    (id : Uuid) (c : CachedManifest) :
    Step.Aside R ⟨op, .publishManifest id c, inp, (), before,
      before.publishManifest split id c⟩ := by
  refine ⟨⟨rfl, rfl, fun _ => rfl, ?_⟩, rfl, rfl, rfl, rfl,
    ServerState.ended_congr (by simp),
    by simp, by simp, by simp [ServerState.publishManifest_tx], fun hc => .inl (by simpa using hc)⟩
  rw [sent_publishManifest]
  split
  · refine List.countP_eq_zero.2 fun item hitem => ?_
    simp [isClosed_of_isManifest (wireItems_isManifest item hitem)]
  · rfl

lemma aside_minor {d : Step} (hminor : d.effect.isMajor = false)
    (hheap : d.after.heap = d.before.heap) (htx : d.after.tx = d.before.tx)
    (hbyId : d.after.byId = d.before.byId) (hcache : d.after.manifestCache = d.before.manifestCache)
    (hrow : d.persistsEnd R = false) : d.Aside R := by
  have hsent : d.sent R = [] := Step.sent_of_eq (by rw [htx])
  refine ⟨⟨?_, ?_, fun map => ?_, by rw [hsent]; rfl⟩, hrow, ?_, ?_, ?_,
    ServerState.ended_congr (by rw [hheap]), by rw [hheap], by rw [hbyId], by rw [htx],
    fun hc => .inl (hcache ▸ hc)⟩
  all_goals
    obtain ⟨op, e, inp, r, before, after⟩ := d
    cases e <;> first | rfl | cases hminor

/-! ### Steps of the end -/

/-- A step that inserts nothing for `R`. -/
lemma ClosingInv.creation {d : Step} (hI : ClosingInv R h st gs) (hi : gs[i]? = some g) (g' : Dues)
    (hcreates : d.creates R = false) (hcodes : d.codes R = false) (hopens : d.opens R = false)
    (hg : g'.coding = g.coding ∧ g'.opening = g.opening) :
    tally (Step.creates R) (h ++ [d]) = tally (Step.creates R) h ∧
      tally (Step.opens R) (h ++ [d]) = tally (Step.opens R) h ∧
      tally (Step.codes R) (h ++ [d]) + due Dues.coding (gs.set i g') = tally (Step.creates R) h ∧
      tally (Step.opens R) h + due Dues.opening (gs.set i g') = tally (Step.creates R) h := by
  have h₁ := due_set Dues.coding hi g'
  have h₂ := due_set Dues.opening hi g'
  have h₃ := hI.coded
  have h₄ := hI.opened
  rw [hg.1] at h₁
  rw [hg.2] at h₂
  simp only [tally_append, hcreates, hcodes, hopens, Bool.false_eq_true, if_false, Nat.add_zero]
  exact ⟨trivial, trivial, by omega, by omega⟩

/-- The room ends, or is found to have ended. -/
lemma ClosingInv.ends {env : Env} {op : Op} {inp : Input} {before : ServerState} {sec : Section}
    {s : RoomState} {out : SectionOutcome sec.Reply} (hI : ClosingInv R h before gs)
    (hi : gs[i]? = some g) (hs : before.heap.get R = some s)
    (hrun : sec.run ⟨env.cfg, env.crates, inp.clockMs⟩ ⟨before.db, inp.faults⟩ s = some out)
    (hends : sec.ends out.reply = true) :
    ClosingInv R (h ++ [⟨op, .section R sec, inp, out.reply, before, before.apply R out⟩])
      (before.apply R out) (gs.set i (g.ended sec)) := by
  have hid : out.state.id = R := (Section.run_framed hrun).id.trans (Heap.get_id hs)
  have hnext : (closing R).next g (.section R sec) out.reply = g.ended sec := if_pos ⟨rfl, hends⟩
  have hord := hI.ordered_set hi (e := .section R sec) trivial out.reply
  rw [hnext] at hord
  generalize hd : (⟨op, .section R sec, inp, out.reply, before, before.apply R out⟩ : Step) = d
  have hE : tally (Step.ends R) (h ++ [d]) = tally (Step.ends R) h + 1 := by
    simp [← hd, Step.ends, hends]
  have hA : tally (Step.announcesEnd R) (h ++ [d]) = tally (Step.announcesEnd R) h := by
    simp [← hd, Step.announcesEnd]
  have hP : tally (Step.persistsEnd R) (h ++ [d]) =
      tally (Step.persistsEnd R) h + if closesRow sec then 1 else 0 := by
    simp [← hd, Step.persistsEnd, hends]
  have hM (map : RegistryMap) :
      tally (Step.removes map R) (h ++ [d]) = tally (Step.removes map R) h := by
    simp [← hd, Step.removes]
  have hG : tally (Step.endsAgain R) (h ++ [d]) =
      tally (Step.endsAgain R) h + if before.Ended R then 1 else 0 := by
    simp [← hd, Step.endsAgain, Step.ends, hends]
  have hC : closings R (h ++ [d]) = closings R h := by
    rw [closings_append, ← hd, section_closings hrun]
    rfl
  have hended : (before.apply R out).Ended R := by
    rw [ServerState.ended_put (ServerState.apply_heap _ _ _) hid, Section.ended_iff hrun]
    exact .inr hends
  have hsome : ((before.apply R out).heap.get R).isSome = (before.heap.get R).isSome := by
    rw [hended.isSome, hs]
    rfl
  have hU : tally (Step.endsUnheard R) (h ++ [d]) = tally (Step.endsUnheard R) h +
      if before.Ended R ∨ (before.tx.get R).isSome then 0 else 1 := by
    cases htx : before.tx.get R <;> by_cases hdead : before.Ended R <;>
      simp [← hd, Step.endsUnheard, Step.ends, hends, hdead, htx]
  obtain ⟨hN, hO, hcoded, hopened⟩ := hI.creation (d := d) hi (g.ended sec)
    (by rw [← hd]; rfl)
    (by rw [← hd]; rfl) (by rw [← hd]; rfl) ⟨rfl, rfl⟩
  have hset (kind : Dues → ℕ) := due_set kind hi (g.ended sec)
  constructor
  case ordered => exact hord
  case announced =>
    have := hset Dues.announce
    have := hI.announced
    simp only [hA, hE, Dues.ended] at *
    omega
  case persisted =>
    have h₁ := hset Dues.persist
    have h₂ := hI.persisted
    have h₃ : (g.ended sec).persist = if closesRow sec then g.persist else g.persist + 1 := rfl
    rw [hP, hE]
    split at h₃
    · rename_i hrow
      rw [if_pos hrow]
      omega
    · rename_i hrow
      rw [if_neg hrow]
      omega
  case removed =>
    have := hset Dues.remove
    have := hI.removed
    simp only [hM, hE, Dues.ended] at *
    omega
  case uncached =>
    have := hset Dues.uncache
    have := hI.uncached
    simp only [hM, Dues.ended] at *
    omega
  case cleared =>
    have := hset Dues.channel
    have := hI.cleared
    simp only [hM, Dues.ended] at *
    omega
  case once =>
    rw [hE, hG]
    split
    · have := hI.once
      omega
    · rename_i hopen
      have : ¬0 < tally (Step.ends R) h := fun hpos => hopen (hI.ended.2 hpos)
      omega
  case ended => exact iff_of_true hended (by omega)
  case byId =>
    rw [hsome, hM, ServerState.apply_byId]
    exact hI.byId
  case created => rw [hN]; exact hI.created
  case room => rw [hN, hsome]; exact hI.room
  case coded => rw [hN]; exact hcoded
  case opened => rw [hN, hO]; exact hopened
  case channel =>
    rw [hsome, hM, hN, hO, ServerState.apply_tx, Option.isSome_map]
    exact hI.channel
  case settled =>
    intro _ hzero
    rw [hN, hO]
    by_cases hdead : before.Ended R
    · exact hI.settled (hI.ended.1 hdead) (by omega)
    · -- nothing has been removed yet, so the channel that is there is the one inserted
      have hopen : ¬0 < tally (Step.ends R) h := fun hpos => hdead (hI.ended.2 hpos)
      have h₁ := hI.removed
      have h₂ := hI.cleared
      have htx : (before.tx.get R).isSome := by
        by_contra hno
        rw [hU, if_neg fun h => h.elim hdead hno] at hzero
        omega
      exact ((hI.channel (by omega)).1 htx).2
  case closed =>
    intro hpos hzero
    rw [hM] at hpos
    rw [ServerState.apply_tx, hI.closed hpos (by omega)]
    rfl
  case cache =>
    rw [hsome, hM, ServerState.apply_manifestCache]
    exact hI.cache
  case sent =>
    rw [hM, hC, hA]
    exact fun hzero hheard => hI.sent hzero (by omega)
  case heard =>
    rw [hM, hC]
    exact fun hpos hheard => hI.heard hpos (by omega)
  case bounded => simpa only [hC, hA] using hI.bounded

/-- The end is announced. -/
lemma ClosingInv.announces {op : Op} {inp : Input} {before : ServerState} {item : BroadcastItem}
    (hI : ClosingInv R h before gs) (hi : gs[i]? = some g) (ha : 0 < g.announce)
    (hitem : item.payload.isClosed = true) :
    ClosingInv R (h ++ [⟨op, .publish R item, inp, (), before, before.publish R item⟩])
      (before.publish R item) (gs.set i { g with announce := g.announce - 1 }) := by
  have hnext : (closing R).next g (.publish R item) () = { g with announce := g.announce - 1 } :=
    if_pos ⟨rfl, hitem⟩
  have hord := hI.ordered_set hi (e := .publish R item) (fun _ _ => ha) ()
  rw [hnext] at hord
  have hdead : before.Ended R := by
    have := hI.announced
    exact hI.ended_of_due Dues.announce (by omega) hi ha
  generalize hd : (⟨op, .publish R item, inp, (), before, before.publish R item⟩ : Step) = d
  have hA : tally (Step.announcesEnd R) (h ++ [d]) = tally (Step.announcesEnd R) h + 1 := by
    simp [← hd, Step.announcesEnd, hitem]
  have hE : tally (Step.ends R) (h ++ [d]) = tally (Step.ends R) h := by simp [← hd, Step.ends]
  have hP : tally (Step.persistsEnd R) (h ++ [d]) = tally (Step.persistsEnd R) h := by
    simp [← hd, Step.persistsEnd]
  have hM (map : RegistryMap) :
      tally (Step.removes map R) (h ++ [d]) = tally (Step.removes map R) h := by
    simp [← hd, Step.removes]
  have hG : tally (Step.endsAgain R) (h ++ [d]) = tally (Step.endsAgain R) h := by
    simp [← hd, Step.endsAgain, Step.ends]
  have hC : closings R (h ++ [d]) =
      closings R h + if (before.tx.get R).isSome then 1 else 0 := by
    rw [closings_append, ← hd, sent_publish]
    split <;> simp_all
  have hU : tally (Step.endsUnheard R) (h ++ [d]) = tally (Step.endsUnheard R) h := by
    simp [← hd, Step.endsUnheard, Step.ends]
  obtain ⟨hN, hO, hcoded, hopened⟩ := hI.creation (d := d)
    hi { g with announce := g.announce - 1 } (by rw [← hd]; rfl) (by rw [← hd]; rfl)
    (by rw [← hd]; rfl) ⟨rfl, rfl⟩
  have hset (kind : Dues → ℕ) := due_set kind hi { g with announce := g.announce - 1 }
  constructor
  case ordered => exact hord
  case announced =>
    have h₁ := hset Dues.announce
    have h₂ := hI.announced
    simp only [hA, hE] at h₁ ⊢
    omega
  case persisted =>
    have h₁ := hset Dues.persist
    have h₂ := hI.persisted
    simp only [hP, hE] at h₁ ⊢
    omega
  case removed =>
    have h₁ := hset Dues.remove
    have h₂ := hI.removed
    simp only [hM, hE] at h₁ ⊢
    omega
  case uncached =>
    have h₁ := hset Dues.uncache
    have h₂ := hI.uncached
    simp only [hM] at h₁ ⊢
    omega
  case cleared =>
    have h₁ := hset Dues.channel
    have h₂ := hI.cleared
    simp only [hM] at h₁ ⊢
    omega
  case once => simpa only [hE, hG] using hI.once
  case ended => simpa [hE, ServerState.Ended] using hI.ended
  case byId => simpa [hM] using hI.byId
  case created => rw [hN]; exact hI.created
  case room => simpa [hN] using hI.room
  case coded => rw [hN]; exact hcoded
  case opened => rw [hN, hO]; exact hopened
  case channel => simpa [hM, hN, hO, ServerState.publish_tx] using hI.channel
  case settled => simpa only [hE, hU, hN, hO] using hI.settled
  case closed => simpa [hM, hU, ServerState.publish_tx] using hI.closed
  case cache => simpa [hM] using hI.cache
  case sent =>
    intro hzero hheard
    rw [hM] at hzero
    rw [hU] at hheard
    have htx : (before.tx.get R).isSome := (hI.channel hzero).2
      ⟨hdead.isSome, hI.settled (hI.ended.1 hdead) hheard⟩
    rw [hC, hA, if_pos htx, hI.sent hzero hheard]
  case heard =>
    intro hpos hheard
    rw [hM] at hpos
    rw [hU] at hheard
    rw [hC]
    exact (hI.heard hpos hheard).trans (Nat.le_add_right _ _)
  case bounded =>
    have h₁ := hI.bounded
    rw [hC, hA]
    split <;> omega

/-- The row of the room is closed. -/
lemma ClosingInv.persists {op : Op} {inp : Input} {before after : ServerState} {nowMs : ℤ}
    {r : Except String Unit} (hI : ClosingInv R h before gs) (hi : gs[i]? = some g)
    (ha : 0 < g.persist) (hheap : after.heap = before.heap) (htx : after.tx = before.tx)
    (hbyId : after.byId = before.byId) (hcache : after.manifestCache = before.manifestCache) :
    ClosingInv R (h ++ [⟨op, .store (.endRoom R nowMs), inp, r, before, after⟩]) after
      (gs.set i { g with persist := g.persist - 1 }) := by
  have hnext : (closing R).next g (.store (.endRoom R nowMs)) r =
      { g with persist := g.persist - 1 } := if_pos rfl
  have hord := hI.ordered_set hi (e := .store (.endRoom R nowMs)) (fun _ => ha) r
  rw [hnext] at hord
  have hpersists : Step.persistsEnd R ⟨op, .store (.endRoom R nowMs), inp, r, before, after⟩ =
      true :=
    decide_eq_true rfl
  refine hI.calm (d := ⟨op, .store (.endRoom R nowMs), inp, r, before, after⟩) hi
    ⟨rfl, rfl, fun _ => rfl, ?_⟩ hord ?_
  · rw [Step.sent_of_eq (by rw [htx])]
    rfl
  · refine hI.kept (ServerState.ended_congr (by rw [hheap])) (by rw [hheap]) (by rw [hbyId])
      (by rw [htx]) (fun hc => .inl (hcache ▸ hc)) rfl rfl ⟨rfl, rfl, rfl, rfl, rfl⟩ ?_
      (Nat.zero_add _)
    rw [if_pos hpersists]
    change 1 + (g.persist - 1) = g.persist
    omega

/-- The room is removed from one of the maps. -/
lemma ClosingInv.removes {op : Op} {inp : Input} {before : ServerState} {map : RegistryMap}
    (hI : ClosingInv R h before gs) (hi : gs[i]? = some g) (ha : g.mayRemove map) :
    ClosingInv R
      (h ++ [⟨op, .remove map R, inp, before.holds R map, before, before.remove map R⟩])
      (before.remove map R) (gs.set i (g.removed (before.holds R map) map)) := by
  have hnext : (closing R).next g (.remove map R) (before.holds R map) =
      g.removed (before.holds R map) map := if_pos rfl
  have hord := hI.ordered_set hi (e := .remove map R) (fun _ => ha) (before.holds R map)
  rw [hnext] at hord
  generalize hd :
    (⟨op, .remove map R, inp, before.holds R map, before, before.remove map R⟩ : Step) = d
  have hA : tally (Step.announcesEnd R) (h ++ [d]) = tally (Step.announcesEnd R) h := by
    simp [← hd, Step.announcesEnd]
  have hE : tally (Step.ends R) (h ++ [d]) = tally (Step.ends R) h := by simp [← hd, Step.ends]
  have hP : tally (Step.persistsEnd R) (h ++ [d]) = tally (Step.persistsEnd R) h := by
    simp [← hd, Step.persistsEnd]
  have hM (map' : RegistryMap) : tally (Step.removes map' R) (h ++ [d]) =
      tally (Step.removes map' R) h + if map = map' then 1 else 0 := by
    simp [← hd, Step.removes]
  have hG : tally (Step.endsAgain R) (h ++ [d]) = tally (Step.endsAgain R) h := by
    simp [← hd, Step.endsAgain, Step.ends]
  have hC : closings R (h ++ [d]) = closings R h := by
    rw [closings_append, ← hd, sent_remove]
    rfl
  have hset (kind : Dues → ℕ) := due_set kind hi (g.removed (before.holds R map) map)
  have hremoved := hI.removed
  have huncached := hI.uncached
  have hcleared := hI.cleared
  -- a removal is only due in a room that has ended
  have hdead : before.Ended R := by
    refine hI.ended.2 ?_
    cases map with
    | byId =>
      have := le_due Dues.remove hi
      have : g.announce < g.remove := ha.1
      omega
    | channel =>
      have := le_due Dues.channel hi
      have : 0 < g.channel := ha
      omega
    | manifestCache =>
      have := le_due Dues.uncache hi
      have : g.channel < g.uncache := ha
      omega
  have hU : tally (Step.endsUnheard R) (h ++ [d]) = tally (Step.endsUnheard R) h := by
    simp [← hd, Step.endsUnheard, Step.ends]
  obtain ⟨hN, hO, hcoded, hopened⟩ := hI.creation (d := d)
    hi (g.removed (before.holds R map) map) (by rw [← hd]; rfl) (by rw [← hd]; rfl)
    (by rw [← hd]; rfl) (by cases map <;> exact ⟨rfl, rfl⟩)
  have hbyId := hI.byId
  have hcache := hI.cache
  simp only [hdead.isSome, true_and] at hbyId hcache
  have hsome : ((before.remove map R).heap.get R).isSome = true := by
    rw [ServerState.remove_heap, hdead.isSome]
  constructor
  case ordered => exact hord
  case announced =>
    have h₁ := hset Dues.announce
    have h₂ : (g.removed (before.holds R map) map).announce = g.announce := by cases map <;> rfl
    have h₃ := hI.announced
    rw [hA, hE]
    omega
  case persisted =>
    have h₁ := hset Dues.persist
    have h₂ : (g.removed (before.holds R map) map).persist = g.persist := by cases map <;> rfl
    have h₃ := hI.persisted
    rw [hP, hE]
    omega
  case removed =>
    have h₁ := hset Dues.remove
    rw [hM, hE]
    cases map with
    | byId =>
      have : g.announce < g.remove := ha.1
      simp only [Dues.removed, if_true] at h₁ ⊢
      omega
    | _ =>
      simp only [Dues.removed, reduceCtorEq, if_false] at h₁ ⊢
      omega
  case uncached =>
    have h₁ := hset Dues.uncache
    rw [hM, hM]
    cases map with
    | byId =>
      simp only [Dues.removed, reduceCtorEq, if_true, if_false] at h₁ ⊢
      omega
    | channel =>
      simp only [Dues.removed, reduceCtorEq, if_false] at h₁ ⊢
      omega
    | manifestCache =>
      have : g.channel < g.uncache := ha
      simp only [Dues.removed, reduceCtorEq, if_true, if_false] at h₁ ⊢
      omega
  case cleared =>
    have h₁ := hset Dues.channel
    rw [hM, hM]
    generalize due Dues.channel (gs.set i (g.removed (before.holds R map) map)) = n at h₁ ⊢
    cases map with
    | byId =>
      -- the handle is there for the first removal only
      have hfound : before.holds R .byId = decide (tally (Step.removes .byId R) h = 0) :=
        decide_eq_decide.2 hbyId
      simp only [Dues.removed, hfound, decide_eq_true_eq, reduceCtorEq, if_true, if_false] at h₁ ⊢
      split at h₁ <;> omega
    | channel =>
      have : 0 < g.channel := ha
      simp only [Dues.removed, reduceCtorEq, if_true, if_false] at h₁ ⊢
      omega
    | manifestCache =>
      simp only [Dues.removed, reduceCtorEq, if_false] at h₁ ⊢
      omega
  case once => simpa only [hE, hG] using hI.once
  case ended => simpa only [hE, ServerState.Ended, ServerState.remove_heap] using hI.ended
  case byId =>
    rw [hM, ServerState.remove_byId]
    cases map with
    | byId => simp
    | _ => simpa [hdead.isSome] using hbyId
  case created => rw [hN]; exact hI.created
  case room => exact fun _ => hsome
  case coded => rw [hN]; exact hcoded
  case opened => rw [hN, hO]; exact hopened
  case channel =>
    rw [hM, hN, hO, ServerState.remove_tx, ServerState.remove_heap]
    cases map with
    | channel => simp
    | _ => simpa using hI.channel
  case settled => simpa only [hE, hU, hN, hO] using hI.settled
  case closed =>
    rw [hM, hU, ServerState.remove_tx]
    cases map with
    | channel => simp
    | _ => simpa using hI.closed
  case cache =>
    rw [hM, ServerState.remove_manifestCache]
    cases map with
    | manifestCache => simp
    | _ => simpa [hdead.isSome] using hcache
  case sent =>
    intro hzero hheard
    rw [hM] at hzero
    rw [hU] at hheard
    rw [hC, hA]
    exact hI.sent (by omega) hheard
  case heard =>
    intro hpos hheard
    rw [hU] at hheard
    rw [hC]
    by_cases hzero : tally (Step.removes .channel R) h = 0
    · -- the channel goes now: the end has been announced before the handle went
      have hordered : due Dues.announce gs ≤ due Dues.remove gs :=
        due_le fun g' hg' => (hI.ordered g' hg').announce
      have hannounced := hI.announced
      rw [hM, hzero] at hpos
      cases map with
      | channel =>
        have := le_due Dues.channel hi
        have : 0 < g.channel := ha
        rw [hI.sent hzero hheard]
        omega
      | _ => simp at hpos
    · exact hI.heard (Nat.pos_of_ne_zero hzero) hheard
  case bounded => simpa only [hC, hA] using hI.bounded

/-! ### Steps of the creation -/

/-- The room gets its handle. -/
lemma ClosingInv.creates {op : Op} {inp : Input} {before : ServerState} {s : RoomState}
    (hI : ClosingInv s.id h before gs) (hi : gs[i]? = some g) (hnew : IsNew s)
    (hfree : before.heap.get s.id = none) :
    ClosingInv s.id (h ++ [⟨op, .insertRoom s, inp, (), before, before.insertRoom s⟩])
      (before.insertRoom s) (gs.set i g.created) := by
  have hnext : (closing s.id).next g (.insertRoom s) () = g.created := if_pos rfl
  have hord := hI.ordered_set hi (e := .insertRoom s) hnew ()
  rw [hnext] at hord
  have hends := hI.unborn hfree
  have hunmade : tally (Step.creates s.id) h = 0 := by
    by_contra hne
    have := hI.room (Nat.pos_of_ne_zero hne)
    simp [hfree] at this
  have hremoved := hI.removed
  have hcleared := hI.cleared
  have hopened := hI.opened
  have hcreates : Step.creates s.id ⟨op, .insertRoom s, inp, (), before, before.insertRoom s⟩ =
      true :=
    decide_eq_true rfl
  have hsome : ((before.insertRoom s).heap.get s.id).isSome = true := by simp
  refine hI.calm (d := ⟨op, .insertRoom s, inp, (), before, before.insertRoom s⟩) hi
    ⟨rfl, rfl, fun _ => rfl, ?_⟩ hord ?_
  · rw [Step.sent_of_eq rfl]
    rfl
  refine ⟨rfl, ?_, rfl, rfl, rfl, ?_, ?_, ?_, fun _ => ?_, fun hne => absurd ?_ hne, fun _ => hsome,
    fun _ => hunmade, fun hzero => ?_, fun hpos => absurd hends (by omega), fun _ _ hnone => hnone,
    fun hc => .inl hc⟩
  · exact Nat.zero_add _
  · rw [hcreates]
    change 0 + (g.coding + 1) = g.coding + 1
    omega
  · rw [hcreates]
    change 0 + (g.opening + 1) = g.opening + 1
    omega
  · refine iff_of_false ?_ fun h => by simpa [hfree] using h.isSome
    rw [ServerState.ended_put (ServerState.insertRoom_heap _ _) rfl]
    exact hnew.open
  · exact iff_of_true (by simp) hsome
  · omega
  · -- the channel comes after the handle
    have htx := hI.channel hzero
    simp only [hfree, Option.isSome_none, Bool.false_eq_true, false_and, iff_false] at htx
    refine iff_of_false htx fun h => ?_
    have h₂ := h.2
    rw [hcreates, if_pos rfl, hunmade] at h₂
    change _ + 0 = _ at h₂
    omega

/-- The room gets its code. -/
lemma ClosingInv.codes {op : Op} {inp : Input} {before : ServerState} {code : String}
    (hI : ClosingInv R h before gs) (hi : gs[i]? = some g) (ha : 0 < g.coding) :
    ClosingInv R (h ++ [⟨op, .insertCode code R, inp, (), before, before.insertCode code R⟩])
      (before.insertCode code R) (gs.set i { g with coding := g.coding - 1 }) := by
  have hnext : (closing R).next g (.insertCode code R) () = { g with coding := g.coding - 1 } :=
    if_pos rfl
  have hord := hI.ordered_set hi (e := .insertCode code R) (fun _ => ha) ()
  rw [hnext] at hord
  have hcodes : Step.codes R ⟨op, .insertCode code R, inp, (), before, before.insertCode code R⟩ =
      true := decide_eq_true rfl
  refine hI.calm (d := ⟨op, .insertCode code R, inp, (), before, before.insertCode code R⟩) hi
    ⟨rfl, rfl, fun _ => rfl, ?_⟩ hord ?_
  · rw [Step.sent_of_eq rfl]
    rfl
  · refine hI.kept (ServerState.ended_congr rfl) rfl Iff.rfl rfl (fun hc => .inl hc) rfl rfl
      ⟨rfl, rfl, rfl, rfl, rfl⟩ (Nat.zero_add _) ?_
    rw [if_pos hcodes]
    change 1 + (g.coding - 1) = g.coding
    omega

/-- The room gets its channel. -/
lemma ClosingInv.opens {op : Op} {inp : Input} {before : ServerState}
    (hI : ClosingInv R h before gs) (hi : gs[i]? = some g) (ha : g.coding < g.opening) :
    ClosingInv R (h ++ [⟨op, .insertChannel R, inp, (), before, before.insertChannel R⟩])
      (before.insertChannel R) (gs.set i { g with opening := g.opening - 1 }) := by
  have hnext : (closing R).next g (.insertChannel R) () = { g with opening := g.opening - 1 } :=
    if_pos rfl
  have hord := hI.ordered_set hi (e := .insertChannel R) (fun _ => ha) ()
  rw [hnext] at hord
  have hopens : Step.opens R ⟨op, .insertChannel R, inp, (), before, before.insertChannel R⟩ =
      true :=
    decide_eq_true rfl
  have hdue := le_due Dues.opening hi
  have hopened := hI.opened
  have hcreated := hI.created
  have hremoved := hI.removed
  have hcleared := hI.cleared
  have hsome : (before.heap.get R).isSome := hI.room (by omega)
  -- a room that had its channel when it ended waits for no other
  have hwaiting : 0 < tally (Step.ends R) h → tally (Step.endsUnheard R) h ≠ 0 := by
    intro hpos hzero
    have := hI.settled hpos hzero
    omega
  refine hI.calm (d := ⟨op, .insertChannel R, inp, (), before, before.insertChannel R⟩) hi
    ⟨rfl, rfl, fun _ => rfl, by rw [sent_insertChannel]; rfl⟩ hord ?_
  refine ⟨rfl, Nat.zero_add _, rfl, rfl, rfl, by simp [Step.codes, Step.creates], ?_,
    ServerState.ended_congr rfl, fun hzero => ?_, fun hne hmem => hne (hI.byId.1 hmem).2,
    fun _ => hsome, fun hc => (by cases hc), fun _ => iff_of_true ?_ ⟨hsome, ?_⟩,
    fun hpos hzero => absurd hzero (hwaiting hpos),
    fun hpos hzero => absurd hzero (hwaiting (by omega)), fun hc => .inl hc⟩
  · rw [if_pos hopens]
    change 1 + (g.opening - 1) = g.opening + 0
    omega
  · rw [show R ∈ (before.insertChannel R).byId ↔ R ∈ before.byId from Iff.rfl, hI.byId]
    exact ⟨fun h => h.1, fun h => ⟨h, hzero⟩⟩
  · simp [ServerState.insertChannel_tx]
  · rw [if_pos hopens]
    change _ = _ + 0
    omega

/-! ### Runs -/

/-- **Every step keeps the invariant.** -/
lemma ClosingInv.step {env : Env} {d : Step} (hI : ClosingInv R h d.before gs)
    (hi : gs[i]? = some g) (ha : (closing R).allows g d.effect) (hc : StepCase env d)
    (hl : d.Lawful env.crates R) :
    ClosingInv R (h ++ [d]) d.after (gs.set i ((closing R).next g d.effect d.resp)) := by
  cases hc with
  | «section» op inp before id sec s out hs _ hrun =>
    by_cases hends : id = R ∧ sec.ends out.reply = true
    · obtain ⟨rfl, hends⟩ := hends
      have hnext : (closing id).next g (.section id sec) out.reply = g.ended sec :=
        if_pos ⟨rfl, hends⟩
      rw [hnext]
      exact hI.ends hi hs hrun hends
    · have hnext : (closing R).next g (.section id sec) out.reply = g := if_neg hends
      rw [hnext, set_self hi]
      exact hI.aside hi (aside_section op inp hs hrun hends)
  | insertRoom op inp before s hfree =>
    by_cases hid : s.id = R
    · subst hid
      have hnext : (closing s.id).next g (.insertRoom s) () = g.created := if_pos rfl
      rw [hnext]
      exact hI.creates hi ha hfree
    · have hnext : (closing R).next g (.insertRoom s) () = g := if_neg hid
      rw [hnext, set_self hi]
      exact hI.aside hi (aside_insertRoom op inp before hid)
  | insertCode op inp before code id =>
    by_cases hid : id = R
    · subst hid
      have hnext : (closing id).next g (.insertCode code id) () =
          { g with coding := g.coding - 1 } := if_pos rfl
      rw [hnext]
      exact hI.codes hi (ha rfl)
    · have hnext : (closing R).next g (.insertCode code id) () = g := if_neg hid
      rw [hnext, set_self hi]
      exact hI.aside hi (aside_insertCode op inp before code hid)
  | insertChannel op inp before id =>
    by_cases hid : id = R
    · subst hid
      have hnext : (closing id).next g (.insertChannel id) () =
          { g with opening := g.opening - 1 } := if_pos rfl
      rw [hnext]
      exact hI.opens hi (ha rfl)
    · have hnext : (closing R).next g (.insertChannel id) () = g := if_neg hid
      rw [hnext, set_self hi]
      exact hI.aside hi (aside_insertChannel op inp before hid)
  | putManifest op inp before id c =>
    have hnext : (closing R).next g (.putManifest id c) () = g := rfl
    rw [hnext, set_self hi]
    exact hI.aside hi (aside_putManifest hl)
  | publishManifest op inp before id c =>
    have hnext : (closing R).next g (.publishManifest id c) () = g := rfl
    rw [hnext, set_self hi]
    exact hI.aside hi (aside_publishManifest op inp before _ id c)
  | publish op inp before id item =>
    by_cases hitem : id = R ∧ item.payload.isClosed = true
    · obtain ⟨rfl, hitem⟩ := hitem
      have hnext : (closing id).next g (.publish id item) () =
          { g with announce := g.announce - 1 } := if_pos ⟨rfl, hitem⟩
      rw [hnext]
      exact hI.announces hi (ha rfl hitem) hitem
    · have hnext : (closing R).next g (.publish id item) () = g := if_neg hitem
      rw [hnext, set_self hi]
      exact hI.aside hi (aside_publish op inp before hitem)
  | remove op inp before map id =>
    by_cases hid : id = R
    · subst hid
      have hnext : (closing id).next g (.remove map id) (before.holds id map) =
          g.removed (before.holds id map) map := if_pos rfl
      rw [hnext]
      exact hI.removes hi (ha rfl)
    · have hnext : (closing R).next g (.remove map id) (before.holds id map) = g := if_neg hid
      rw [hnext, set_self hi]
      exact hI.aside hi (aside_remove op inp before map hid)
  | minor _ hminor hheap htx hbyId hcode hcache =>
    by_cases hrow : d.persistsEnd R = true
    · obtain ⟨op, e, inp, r, before, after⟩ := d
      have hstore : ∃ nowMs, e = .store (.endRoom R nowMs) := by
        cases e with
        | store request =>
          cases request with
          | endRoom id nowMs => exact ⟨nowMs, by rw [of_decide_eq_true hrow]⟩
          | _ => cases hrow
        | «section» => cases hminor
        | _ => cases hrow
      obtain ⟨nowMs, rfl⟩ := hstore
      have hnext : (closing R).next g (.store (.endRoom R nowMs)) r =
          { g with persist := g.persist - 1 } := if_pos rfl
      rw [hnext]
      exact hI.persists hi (ha rfl) hheap htx hbyId hcache
    · have hnext : (closing R).next g d.effect d.resp = g := by
        obtain ⟨op, e, inp, r, before, after⟩ := d
        cases e with
        | store request =>
          cases request with
          | endRoom id nowMs =>
            exact if_neg fun hid => hrow (decide_eq_true hid)
          | _ => rfl
        | «section» | publish | remove | insertRoom | insertCode | insertChannel => cases hminor
        | _ => rfl
      rw [hnext, set_self hi]
      exact hI.aside hi (aside_minor hminor hheap htx hbyId hcache (by simpa using hrow))

/-- A new task has nothing to do. -/
lemma ClosingInv.spawn (hI : ClosingInv R h st gs) : ClosingInv R h st (gs ++ [.none]) := by
  have hdue (kind : Dues → ℕ) (hk : kind .none = 0) : due kind (gs ++ [.none]) = due kind gs := by
    rw [due_append, hk, Nat.add_zero]
  refine { hI with
    ordered := fun g hg => ?_
    announced := by rw [hdue _ rfl, hI.announced]
    persisted := by rw [hdue _ rfl, hI.persisted]
    removed := by rw [hdue _ rfl, hI.removed]
    uncached := by rw [hdue _ rfl, hI.uncached]
    cleared := by rw [hdue _ rfl, hI.cleared]
    coded := by rw [hdue _ rfl, hI.coded]
    opened := by rw [hdue _ rfl, hI.opened] }
  rcases List.mem_append.1 hg with hg | hg
  · exact hI.ordered g hg
  · rw [List.mem_singleton.1 hg]
    exact ⟨le_rfl, le_rfl, le_rfl, le_rfl⟩

/-- Every reply of a run says whether the room ended. -/
lemma handled_closes {env : Env} {d : Step} (hd : (system env).Handled d) :
    match d.effect, d.resp with
    | .section _ sec, r => closes sec r
    | _, _ => True := by
  obtain ⟨op, e, inp, r, before, after⟩ := d
  cases e with
  | «section» id sec =>
    obtain ⟨s, out, -, hout, rfl, -⟩ := handle_section (r := r) hd
    exact section_closes hout
  | _ => exact trivial

/-- What the tasks of a pool have to do about the end of `R`. -/
def duesIn (R : Uuid) (p : Tasks) : List Dues :=
  p.tasks.map (System.Task.ghost (closing R) fun _ => .none)

/-- What a server needs to know of `R` at its start: the room runs, or it is not there. -/
structure ServerState.Unended (st : ServerState) (R : Uuid) : Prop where
  running : ¬st.Ended R
  byId : R ∈ st.byId ↔ (st.heap.get R).isSome
  channel : (st.tx.get R).isSome ↔ (st.heap.get R).isSome
  cache : (st.manifestCache.get R).isSome → (st.heap.get R).isSome
  held : R ∉ st.held

lemma ServerState.unended_empty (R : Uuid) : ServerState.empty.Unended R := by
  constructor <;> simp [ServerState.Ended, ServerState.empty]

/-- **The invariant holds in every run**, and a task that is done has nothing to do. -/
theorem closingInv_of_runFrom (R : Uuid) {env : Env} {guard : List Step → Step → Prop}
    {st₀ : ServerState} {h : List Step} {p : Tasks} (r : RunFrom env guard st₀ h p)
    (h₀ : st₀.Unended R) : ClosingInv R h p.state (duesIn R p) ∧
      ∀ t ∈ p.tasks, t.rest.Sat (closing R) (fun _ g => g = .none)
        (System.Task.ghost (closing R) (fun _ => .none) t) := by
  refine System.Run.invariant (closing R) (fun _ => .none) (fun _ g => g = .none)
    (fun h st gs => ClosingInv R h st gs) (program_closing env R) ?_ (fun h st gs op hI => hI.spawn)
    (fun h gs d _ hd => ⟨handled_answers hd, handled_closes hd⟩)
    (fun h gs i g d hI hi ha hd hl => hI.step hi ha (step_cases hd) hl)
    (r.guarded (pendingInv_of_runFrom R r h₀.held).2)
  constructor
  case ordered => exact fun g hg => absurd hg List.not_mem_nil
  case ended => simpa using h₀.running
  case byId => simpa using h₀.byId
  case channel => simpa using h₀.channel
  case cache => simpa using h₀.cache
  all_goals simp [due, closings]

theorem closingInv_of_run (R : Uuid) {env : Env} {guard : List Step → Step → Prop} {h : List Step}
    {p : Tasks} (r : Run env guard h p) : ClosingInv R h p.state (duesIn R p) ∧
      ∀ t ∈ p.tasks, t.rest.Sat (closing R) (fun _ g => g = .none)
        (System.Task.ghost (closing R) (fun _ => .none) t) :=
  closingInv_of_runFrom R r (ServerState.unended_empty R)

end Locast.Server
