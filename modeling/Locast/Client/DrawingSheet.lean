import Locast.Client.DrawingSession
import Mathlib.Data.List.Infix

/-!
# The sheet of a drawing session (`drawing/drawingSession.ts`)

What the strokes and all sends say to each other, whichever of the sends were handed over already.
-/

namespace Locast.Client.Drawing

/-! ### The sends of one stroke -/

namespace StrokeSends

/-- A stroke that was begun. -/
def begun (opts : BeginStrokeOptions) : StrokeSends := ⟨opts, [], none, List.pairwise_singleton _ _⟩

/-- The sequence numbers. -/
def seqs (d : StrokeSends) : List ℕ := 1 :: d.points.map (·.2) ++ d.ending.toList.map (·.2)

lemma pairwise_concat {l : List ℕ} (h : l.Pairwise (· < ·)) {n : ℕ} (hn : ∀ k ∈ l, k < n) :
    (l ++ [n]).Pairwise (· < ·) :=
  List.pairwise_append.2 ⟨h, List.pairwise_singleton _ _, fun k hk m hm => by
    rw [List.mem_singleton.1 hm]
    exact hn k hk⟩

/-- Another point. -/
def addPoint (d : StrokeSends) (p : StrokePointPayload) (n : ℕ) (hopen : d.ending = none)
    (hn : ∀ k ∈ d.seqs, k < n) : StrokeSends where
  opts := d.opts
  points := d.points ++ [(p, n)]
  ending := none
  increasing := by
    have h := pairwise_concat d.increasing hn
    simpa [hopen] using h

/-- The end. -/
def addEnd (d : StrokeSends) (tsMs : ℚ) (n : ℕ) (hopen : d.ending = none)
    (hn : ∀ k ∈ d.seqs, k < n) :
    StrokeSends where
  opts := d.opts
  points := d.points
  ending := some (tsMs, n)
  increasing := by
    have h := pairwise_concat d.increasing hn
    simpa [hopen] using h

variable {d : StrokeSends} {strokeId : String}

lemma inputs_addPoint {p : StrokePointPayload} {n : ℕ} {hopen : d.ending = none}
    {hn : ∀ k ∈ d.seqs, k < n} :
    (d.addPoint p n hopen hn).inputs strokeId = d.inputs strokeId ++ [.point strokeId p n] := by
  simp [inputs, addPoint, hopen]

lemma inputs_addEnd {tsMs : ℚ} {n : ℕ} {hopen : d.ending = none} {hn : ∀ k ∈ d.seqs, k < n} :
    (d.addEnd tsMs n hopen hn).inputs strokeId = d.inputs strokeId ++ [.ends strokeId tsMs n] := by
  simp [inputs, addEnd, hopen]

lemma mem_seqs_addPoint {p : StrokePointPayload} {n : ℕ} {hopen : d.ending = none}
    {hn : ∀ k ∈ d.seqs, k < n} {k : ℕ} : k ∈ (d.addPoint p n hopen hn).seqs ↔
    k ∈ d.seqs ∨ k = n := by
  simp only [seqs, addPoint, hopen, List.map_append, List.map_cons, List.map_nil,
    Option.toList_none, List.append_nil, List.mem_cons, List.mem_append, List.not_mem_nil,
    or_false, or_assoc]

/-- Only the first send begins. -/
lemma inputs_eq_cons (d : StrokeSends) (strokeId : String) : ∃ rest,
    d.inputs strokeId = .begins strokeId d.opts 1 :: rest ∧ ∀ e ∈ rest, e.isBegin = false := by
  refine ⟨_, rfl, fun e he => ?_⟩
  rcases List.mem_append.1 he with he | he <;>
  · obtain ⟨x, -, rfl⟩ := List.mem_map.1 he
    rfl

/-- A point of the sends is taken out. -/
lemma exists_without {before after : List DrawingSendInput} {e : DrawingSendInput}
    (he : e.isPoint = true) (h : d.inputs strokeId = before ++ e :: after) : ∃ d' : StrokeSends,
      before ++ after = d'.inputs strokeId ∧ d'.ending = d.ending ∧ ∀ k ∈ d'.seqs, k ∈ d.seqs := by
  have hends : ∀ x ∈ d.ending.toList.map fun x => DrawingSendInput.ends strokeId x.1 x.2,
      x.isPoint = false := by
    intro x hx
    obtain ⟨y, -, rfl⟩ := List.mem_map.1 hx
    rfl
  rcases before with _ | ⟨b, before⟩
  · rw [inputs] at h
    injection h with hb
    rw [← hb] at he
    cases he
  rw [inputs, List.cons_append, List.cons_append] at h
  injection h with hb hrest
  rcases List.append_eq_append_iff.1 hrest with ⟨mid, -, hmid⟩ | ⟨mid, hpoints, hmid⟩
  · have := hends e (hmid ▸ by simp)
    rw [he] at this
    cases this
  rcases mid with _ | ⟨x, mid⟩
  · have := hends e (by rw [List.nil_append] at hmid; rw [← hmid]; simp)
    rw [he] at this
    cases this
  rw [List.cons_append] at hmid
  injection hmid with hx hafter
  obtain ⟨l, l', hl, hbefore, hl'⟩ := List.map_eq_append_iff.1 hpoints
  obtain ⟨q, r, rfl, -, hr⟩ := List.map_eq_cons_iff.1 hl'
  have hsub : (l ++ r).Sublist d.points := by
    rw [hl]
    exact (List.sublist_cons_self q r).append_left l
  have hseqs : (1 :: (l ++ r).map (·.2) ++ d.ending.toList.map (·.2)).Sublist d.seqs :=
    ((hsub.map _).cons_cons 1).append_right _
  refine ⟨⟨d.opts, l ++ r, d.ending, d.increasing.sublist hseqs⟩, ?_, rfl, fun k hk =>
    hseqs.subset hk⟩
  simp [inputs, hbefore, hr, hafter, ← hb]

end StrokeSends

/-- The points among some sends. -/
def pointsOf (l : List DrawingSendInput) : List StrokePointPayload := l.filterMap (·.point?)

lemma exists_point?_of_isPoint {e : DrawingSendInput} (h : e.isPoint = true) :
    ∃ p, e.point? = some p := by
  cases e with
  | point strokeId p clientSeq => exact ⟨p, rfl⟩
  | _ => cases h

lemma pointsOf_append (l l' : List DrawingSendInput) :
    pointsOf (l ++ l') = pointsOf l ++ pointsOf l' :=
  List.filterMap_append

lemma pointsOf_sublist {l l' : List DrawingSendInput} (h : l.Sublist l') :
    (pointsOf l).Sublist (pointsOf l') := h.filterMap _

lemma pointsOf_inputs (d : StrokeSends) (strokeId : String) :
    pointsOf (d.inputs strokeId) = d.points.map (·.1) := by
  have hends : pointsOf (d.ending.toList.map fun e => .ends strokeId e.1 e.2) = [] :=
    List.filterMap_eq_nil_iff.2 fun x hx => by
      obtain ⟨y, -, rfl⟩ := List.mem_map.1 hx
      rfl
  rw [StrokeSends.inputs, pointsOf_append, hends, List.append_nil, pointsOf]
  simp [DrawingSendInput.point?, List.filterMap_map]

/-! ### The sheet -/

lemma getElem?_modify_eq_some {l : List Stroke} {f : Stroke → Stroke} {i j : ℕ} {st : Stroke}
    (h : (l.modify i f)[j]? = some st) : ∃ st₀, l[j]? = some st₀ ∧
      st = if i = j then f st₀ else st₀ := by
  rw [List.getElem?_modify] at h
  obtain ⟨st₀, hst₀, rfl⟩ := Option.map_eq_some_iff.1 h
  exact ⟨st₀, hst₀, rfl⟩

lemma getElem?_modify_of {l : List Stroke} (f : Stroke → Stroke) {i j : ℕ} {st : Stroke}
    (h : l[j]? = some st) :
    (l.modify i f)[j]? = some (if i = j then f st else st) := by
  rw [List.getElem?_modify, h]
  rfl

/-- The strokes, the one in progress, and all sends that were not dropped. -/
structure Sheet where
  strokes : List Stroke
  active : Option ActiveStroke
  activeSeq : ℕ
  pendingPoint : Option StrokePointPayload
  sends : List QueuedSend

/-- The sends of a stroke. -/
def sendsOf (i : ℕ) (l : List QueuedSend) : List DrawingSendInput :=
  (l.filter (·.ofStroke i)).map (·.input)

lemma ofStroke_eq_true {i : ℕ} {t : QueuedSend} : t.ofStroke i = true ↔ ∃ a ∈ t.stroke,
    a.ref = i := by
  rw [QueuedSend.ofStroke, Option.any_eq_true]
  simp

lemma ofStroke_eq_false {i : ℕ} {t : QueuedSend} : t.ofStroke i = false ↔ ∀ a ∈ t.stroke,
    a.ref ≠ i := by
  rw [← Bool.not_eq_true, ofStroke_eq_true]
  simp

lemma sendsOf_append (i : ℕ) (l l' : List QueuedSend) :
    sendsOf i (l ++ l') = sendsOf i l ++ sendsOf i l' := by
  simp [sendsOf]

lemma sendsOf_concat_of {i : ℕ} {t : QueuedSend} (ht : t.ofStroke i = true) (l : List QueuedSend) :
    sendsOf i (l ++ [t]) = sendsOf i l ++ [t.input] := by
  simp [sendsOf, ht]

lemma sendsOf_concat_other {i : ℕ} {t : QueuedSend} (ht : t.ofStroke i = false)
    (l : List QueuedSend) :
    sendsOf i (l ++ [t]) = sendsOf i l := by
  simp [sendsOf, ht]

lemma sendsOf_cons_of {i : ℕ} {t : QueuedSend} (ht : t.ofStroke i = true) (l : List QueuedSend) :
    sendsOf i (t :: l) = t.input :: sendsOf i l := by
  simp [sendsOf, ht]

lemma sendsOf_cons_other {i : ℕ} {t : QueuedSend} (ht : t.ofStroke i = false)
    (l : List QueuedSend) :
    sendsOf i (t :: l) = sendsOf i l := by
  simp [sendsOf, ht]

lemma mem_sendsOf {i : ℕ} {t : QueuedSend} {l : List QueuedSend} (ht : t ∈ l)
    (hof : t.ofStroke i = true) :
    t.input ∈ sendsOf i l :=
  List.mem_map_of_mem (List.mem_filter.2 ⟨ht, hof⟩)

lemma sendsOf_sublist (i : ℕ) {l l' : List QueuedSend} (h : l.Sublist l') :
    (sendsOf i l).Sublist (sendsOf i l') := (h.filter _).map _

lemma sendsOf_eq_nil {i : ℕ} {l : List QueuedSend} (h : ∀ t ∈ l, t.ofStroke i = false) :
    sendsOf i l = [] := by
  rw [sendsOf, List.filter_eq_nil_iff.2 fun t ht => by rw [h t ht]; exact Bool.false_ne_true]
  rfl

/-- The sends are those of the stroke, no sequence number is above the bound while it is open, and
the points are appended ones. -/
structure Drawn (st : Stroke) (bound : ℕ) (l : List DrawingSendInput) : Prop where
  exists_sends : ∃ d : StrokeSends, l = d.inputs st.id ∧ d.ending.isSome = st.closed ∧
    (st.closed = false → ∀ k ∈ d.seqs, k ≤ bound)
  points : (pointsOf l).Sublist st.appended

/-- The newest point was queued last, or waits to be flushed. -/
def Newest (appended queued : List StrokePointPayload) : Option StrokePointPayload → Prop
  | none => queued.getLast? = appended.getLast?
  | some p => ∃ l, appended = l ++ [p] ∧ queued.Sublist l

/-- The sends name strokes of the sheet, and no stroke ends after its undo. -/
structure Linked (strokes : List Stroke) (l : List QueuedSend) : Prop where
  known : ∀ t ∈ l, ∀ a ∈ t.stroke, a.ref < strokes.length
  undone : ∀ u ∈ l, ∀ i ∈ u.undoes, u.stroke = none ∧ ∃ st, strokes[i]? = some st ∧ st.closed = true
  follows : l.Pairwise fun u e => e.input.isEnd = true → ∀ i ∈ u.undoes, e.ofStroke i = false

/-- What the session keeps: the strokes but the one in progress are ended, and the sends of each are
as they should be. -/
structure Sheet.Inv (c : Sheet) : Prop where
  drawn : ∀ i st, c.strokes[i]? = some st → Drawn st c.activeSeq (sendsOf i c.sends)
  closed : ∀ i st, c.strokes[i]? = some st → (st.closed = false ↔ ∃ a ∈ c.active, a.ref = i)
  active : ∀ a ∈ c.active, ∃ st, c.strokes[a.ref]? = some st ∧ st.id = a.id
  trailing : ∀ i st, c.strokes[i]? = some st → st.closed = true → st.failed = false →
    (pointsOf (sendsOf i c.sends)).getLast? = st.appended.getLast?
  newest : ∀ a ∈ c.active, ∀ st, c.strokes[a.ref]? = some st →
    Newest st.appended (pointsOf (sendsOf a.ref c.sends)) c.pendingPoint
  linked : Linked c.strokes c.sends

lemma Linked.sublist {strokes : List Stroke} {l l' : List QueuedSend} (h : Linked strokes l)
    (hl : l'.Sublist l) : Linked strokes l' where
  known := fun t ht => h.known t (hl.subset ht)
  undone := fun u hu => h.undone u (hl.subset hu)
  follows := h.follows.sublist hl

lemma Linked.mono {strokes strokes' : List Stroke} {l : List QueuedSend} (h : Linked strokes l)
    (hlen : strokes.length ≤ strokes'.length)
    (hclosed : ∀ (i : ℕ) (st : Stroke), strokes[i]? = some st → st.closed = true →
      ∃ st' : Stroke, strokes'[i]? = some st' ∧ st'.closed = true) : Linked strokes' l where
  known := fun t ht a ha => (h.known t ht a ha).trans_le hlen
  undone := by
    intro u hu i hi
    obtain ⟨hnone, st, hst, hc⟩ := h.undone u hu i hi
    exact ⟨hnone, hclosed i st hst hc⟩
  follows := h.follows

/-- Another send is queued. -/
lemma Linked.concat {strokes : List Stroke} {l : List QueuedSend} (h : Linked strokes l)
    {t : QueuedSend} (hknown : ∀ a ∈ t.stroke, a.ref < strokes.length)
    (hundone : ∀ i ∈ t.undoes, t.stroke = none ∧ ∃ st, strokes[i]? = some st ∧ st.closed = true)
    (hend : t.input.isEnd = true → ∀ (i : ℕ) (st : Stroke), strokes[i]? = some st →
      t.ofStroke i = true → st.closed = false) :
    Linked strokes (l ++ [t]) where
  known := by
    intro u hu
    rcases List.mem_append.1 hu with hu | hu
    · exact h.known u hu
    · rw [List.mem_singleton.1 hu]
      exact hknown
  undone := by
    intro u hu
    rcases List.mem_append.1 hu with hu | hu
    · exact h.undone u hu
    · rw [List.mem_singleton.1 hu]
      exact hundone
  follows := by
    refine List.pairwise_append.2 ⟨h.follows, List.pairwise_singleton _ _,
      fun u hu e he hisEnd i hi => ?_⟩
    rw [List.mem_singleton.1 he] at hisEnd ⊢
    obtain ⟨-, st, hst, hclosed⟩ := h.undone u hu i hi
    by_contra hof
    rw [Bool.not_eq_false] at hof
    have := hend hisEnd i st hst hof
    rw [hclosed] at this
    cases this

namespace Sheet

variable {c : Sheet}

/-- **An undo follows the end of its stroke.** -/
lemma Inv.undos (h : c.Inv) {before after : List QueuedSend} {u : QueuedSend}
    (hsends : c.sends = before ++ u :: after) {i : ℕ} (hi : i ∈ u.undoes) :
    ∃ e ∈ before, e.ofStroke i = true ∧ e.input.isEnd = true := by
  obtain ⟨hnone, st, hst, hclosed⟩ := h.linked.undone u (by rw [hsends]; simp) i hi
  obtain ⟨d, hd, hending, -⟩ := (h.drawn i st hst).exists_sends
  rw [hclosed] at hending
  obtain ⟨e, he⟩ := Option.isSome_iff_exists.1 hending
  have hmem : DrawingSendInput.ends st.id e.1 e.2 ∈ sendsOf i c.sends := by
    rw [hd, StrokeSends.inputs, he]
    simp
  obtain ⟨t, ht, hinput⟩ := List.mem_map.1 hmem
  obtain ⟨htmem, htof⟩ := List.mem_filter.1 ht
  have htend : t.input.isEnd = true := by rw [hinput]; rfl
  have hfollows := h.linked.follows
  rw [hsends] at htmem hfollows
  rcases List.mem_append.1 htmem with hbefore | hafter
  · exact ⟨t, hbefore, htof, htend⟩
  rcases List.mem_cons.1 hafter with rfl | hafter
  · rw [QueuedSend.ofStroke, hnone] at htof
    cases htof
  · have := List.rel_of_pairwise_cons (List.pairwise_append.1 hfollows).2.1 hafter htend i hi
    rw [htof] at this
    cases this

/-! ### A point is dropped -/

/-- What is left after a point of a stroke that can spare it was dropped, if one was. -/
structure Thinned (c : Sheet) (l : List QueuedSend) : Prop where
  sublist : l.Sublist c.sends
  drawn : ∀ i strokeId, ∀ d : StrokeSends, sendsOf i c.sends = d.inputs strokeId →
    ∃ d' : StrokeSends, sendsOf i l = d'.inputs strokeId ∧ d'.ending = d.ending ∧
      ∀ k ∈ d'.seqs, k ∈ d.seqs
  trailing : ∀ i st, c.strokes[i]? = some st → st.closed = true → st.failed = false →
    (pointsOf (sendsOf i l)).getLast? = (pointsOf (sendsOf i c.sends)).getLast?

lemma thinned_refl (c : Sheet) : c.Thinned c.sends where
  sublist := List.Sublist.refl _
  drawn := fun _ _ d hd => ⟨d, hd, rfl, fun _ hk => hk⟩
  trailing := fun _ _ _ _ _ => rfl

/-- The stroke of the point is in progress, has failed, or has a later point. -/
def Spares (c : Sheet) (q : QueuedSend) (later : List QueuedSend) : Prop :=
  q.stroke = c.active ∨ (∀ i st, c.strokes[i]? = some st → q.ofStroke i = true → st.failed = true) ∨
    ∃ t ∈ later, t.stroke = q.stroke ∧ t.input.isPoint = true

lemma Inv.thinned_drop (h : c.Inv) {before after : List QueuedSend} {q : QueuedSend}
    (hsends : c.sends = before ++ q :: after) (hq : q.input.isPoint = true)
    (hspare : c.Spares q after) :
    c.Thinned (before ++ after) where
  sublist := by
    rw [hsends]
    exact (List.sublist_cons_self q after).append_left before
  drawn := by
    intro i strokeId d hd
    rw [hsends, sendsOf_append] at hd
    rw [sendsOf_append]
    by_cases hi : q.ofStroke i = true
    · rw [sendsOf_cons_of hi] at hd
      exact StrokeSends.exists_without hq hd.symm
    · rw [sendsOf_cons_other (Bool.not_eq_true _ ▸ hi)] at hd
      exact ⟨d, hd, rfl, fun _ hk => hk⟩
  trailing := by
    intro i st hst hclosed hfailed
    rw [hsends, sendsOf_append, sendsOf_append, pointsOf_append, pointsOf_append]
    by_cases hi : q.ofStroke i = true
    · rw [sendsOf_cons_of hi]
      rcases hspare with hactive | hfail | ⟨t, ht, hstroke, hpoint⟩
      · have hopen := (h.closed i st hst).2 (hactive ▸ ofStroke_eq_true.1 hi)
        rw [hclosed] at hopen
        cases hopen
      · rw [hfail i st hst hi] at hfailed
        cases hfailed
      · have hne : pointsOf (sendsOf i after) ≠ [] := by
          obtain ⟨p, hp⟩ := exists_point?_of_isPoint hpoint
          have hof : t.ofStroke i = true := by
            rw [QueuedSend.ofStroke, hstroke]
            exact hi
          exact List.ne_nil_of_mem (List.mem_filterMap.2 ⟨t.input, mem_sendsOf ht hof, hp⟩)
        rw [List.getLast?_append_of_ne_nil _ hne, ← List.singleton_append, pointsOf_append,
          ← List.append_assoc, List.getLast?_append_of_ne_nil _ hne]
    · rw [sendsOf_cons_other (Bool.not_eq_true _ ▸ hi)]

/-! ### What happens to the sheet -/

/-- The stroke in progress. -/
lemma Inv.exists_open (h : c.Inv) {a : ActiveStroke} (ha : c.active = some a) :
    ∃ st, c.strokes[a.ref]? = some st ∧ st.id = a.id ∧ st.closed = false := by
  obtain ⟨st, hst, hid⟩ := h.active a ha
  exact ⟨st, hst, hid, (h.closed _ st hst).2 ⟨a, ha, rfl⟩⟩

lemma Inv.ne_of_closed (h : c.Inv) {a : ActiveStroke} (ha : c.active = some a) {i : ℕ} {st : Stroke}
    (hst : c.strokes[i]? = some st) (hclosed : st.closed = true) : a.ref ≠ i := by
  intro hai
  have := (h.closed i st hst).2 ⟨a, ha, hai⟩
  rw [hclosed] at this
  cases this

/-- The pending point is queued, and a full queue drops one that can be spared. -/
lemma Inv.flush (h : c.Inv) {a : ActiveStroke} (ha : c.active = some a) {p : StrokePointPayload}
    (hp : c.pendingPoint = some p) {l : List QueuedSend} (hl : c.Thinned l) :
    Inv { c with
      activeSeq := c.activeSeq + 1
      pendingPoint := none
      sends := l ++ [⟨some a, .point a.id p (c.activeSeq + 1), []⟩] } := by
  obtain ⟨sa, hsa, hid, hopen⟩ := h.exists_open ha
  have hof : ∀ i, (⟨some a, .point a.id p (c.activeSeq + 1), []⟩ : QueuedSend).ofStroke i =
      decide (a.ref = i) :=
    fun i => rfl
  have hnewest := h.newest a ha sa hsa
  rw [hp] at hnewest
  obtain ⟨init, happended, hsub⟩ := hnewest
  exact {
    drawn := by
      intro i st hst
      obtain ⟨⟨d, hd, hending, hbound⟩, hpoints⟩ := h.drawn i st hst
      obtain ⟨d', hd', hending', hseqs⟩ := hl.drawn i st.id d hd
      have hthin := pointsOf_sublist (sendsOf_sublist i hl.sublist)
      by_cases hai : a.ref = i
      · subst hai
        obtain rfl : sa = st := Option.some.inj (hsa.symm.trans hst)
        have hnone : d'.ending = none := by
          rw [hending', ← Option.not_isSome_iff_eq_none, hending, hopen]
          exact Bool.false_ne_true
        have hlt : ∀ k ∈ d'.seqs, k < c.activeSeq + 1 := fun k hk =>
          Nat.lt_succ_of_le (hbound hopen k (hseqs k hk))
        rw [sendsOf_concat_of (by rw [hof]; exact decide_eq_true rfl)]
        refine ⟨⟨d'.addPoint p _ hnone hlt, ?_, ?_, fun _ k hk => ?_⟩, ?_⟩
        · rw [StrokeSends.inputs_addPoint, hd', hid]
        · rw [hopen]
          rfl
        · rcases StrokeSends.mem_seqs_addPoint.1 hk with hk | rfl
          · exact (hlt k hk).le
          · exact le_rfl
        · rw [pointsOf_append, happended]
          exact (hthin.trans hsub).append (List.Sublist.refl _)
      · rw [sendsOf_concat_other (by rw [hof]; exact decide_eq_false hai)]
        exact ⟨⟨d', hd', hending' ▸ hending, fun hc k hk =>
          (hbound hc k (hseqs k hk)).trans (Nat.le_succ _)⟩, hthin.trans hpoints⟩
    closed := h.closed
    active := h.active
    trailing := by
      intro i st hst hclosed hfailed
      rw [sendsOf_concat_other (by rw [hof]; exact decide_eq_false (h.ne_of_closed ha hst hclosed))]
      exact (hl.trailing i st hst hclosed hfailed).trans (h.trailing i st hst hclosed hfailed)
    newest := by
      intro a' ha' st hst
      obtain rfl : a = a' := Option.some.inj (ha.symm.trans ha')
      obtain rfl : sa = st := Option.some.inj (hsa.symm.trans hst)
      rw [sendsOf_concat_of (by rw [hof]; exact decide_eq_true rfl), Newest, happended,
        pointsOf_append, List.getLast?_concat]
      exact List.getLast?_concat
    linked := by
      refine (h.linked.sublist hl.sublist).concat ?_ (fun i hi => absurd hi List.not_mem_nil)
        (fun he => by cases he)
      intro a' ha'
      cases ha'
      exact (List.getElem?_eq_some_iff.1 hsa).1 }

/-- The stroke in progress ends, once no point of it is pending. -/
lemma Inv.close (h : c.Inv) {a : ActiveStroke} (ha : c.active = some a) (hp : c.pendingPoint = none)
    (tsMs : ℚ) :
    Inv { c with
      strokes := c.strokes.modify a.ref ({ · with closed := true })
      active := none
      activeSeq := c.activeSeq + 1
      pendingPoint := none
      sends := c.sends ++ [⟨some a, .ends a.id tsMs (c.activeSeq + 1), []⟩] } := by
  obtain ⟨sa, hsa, hid, hopen⟩ := h.exists_open ha
  have hof : ∀ i, (⟨some a, .ends a.id tsMs (c.activeSeq + 1), []⟩ : QueuedSend).ofStroke i =
      decide (a.ref = i) :=
    fun i => rfl
  have hother : ∀ i st, c.strokes[i]? = some st → a.ref ≠ i → st.closed = true := by
    intro i st hst hai
    rw [← Bool.not_eq_false, h.closed i st hst, ha]
    rintro ⟨a', ha', hi⟩
    cases ha'
    exact hai hi
  have hnewest := h.newest a ha sa hsa
  rw [hp] at hnewest
  exact {
    drawn := by
      intro i st hst
      obtain ⟨st₀, hst₀, rfl⟩ := getElem?_modify_eq_some hst
      obtain ⟨⟨d, hd, hending, hbound⟩, hpoints⟩ := h.drawn i st₀ hst₀
      by_cases hai : a.ref = i
      · subst hai
        obtain rfl : sa = st₀ := Option.some.inj (hsa.symm.trans hst₀)
        have hnone : d.ending = none := by
          rw [← Option.not_isSome_iff_eq_none, hending, hopen]
          exact Bool.false_ne_true
        have hlt : ∀ k ∈ d.seqs, k < c.activeSeq + 1 := fun k hk =>
          Nat.lt_succ_of_le (hbound hopen k hk)
        rw [if_pos rfl, sendsOf_concat_of (by rw [hof]; exact decide_eq_true rfl)]
        refine ⟨⟨d.addEnd tsMs _ hnone hlt, ?_, rfl, fun hc => by cases hc⟩, ?_⟩
        · rw [StrokeSends.inputs_addEnd, hd, hid]
        · rw [pointsOf_append]
          exact (List.append_nil _).symm ▸ hpoints
      · rw [if_neg hai, sendsOf_concat_other (by rw [hof]; exact decide_eq_false hai)]
        refine ⟨⟨d, hd, hending, fun hc => ?_⟩, hpoints⟩
        rw [hother i st₀ hst₀ hai] at hc
        cases hc
    closed := by
      intro i st hst
      obtain ⟨st₀, hst₀, rfl⟩ := getElem?_modify_eq_some hst
      refine ⟨fun hc => ?_, fun ⟨a', ha', _⟩ => by cases ha'⟩
      by_cases hai : a.ref = i
      · rw [if_pos hai] at hc
        cases hc
      · rw [if_neg hai, hother i st₀ hst₀ hai] at hc
        cases hc
    active := fun a' ha' => by cases ha'
    trailing := by
      intro i st hst hclosed hfailed
      obtain ⟨st₀, hst₀, rfl⟩ := getElem?_modify_eq_some hst
      by_cases hai : a.ref = i
      · subst hai
        obtain rfl : sa = st₀ := Option.some.inj (hsa.symm.trans hst₀)
        rw [if_pos rfl, sendsOf_concat_of (by rw [hof]; exact decide_eq_true rfl), pointsOf_append]
        exact (List.append_nil _).symm ▸ hnewest
      · rw [if_neg hai] at hclosed hfailed ⊢
        rw [sendsOf_concat_other (by rw [hof]; exact decide_eq_false hai)]
        exact h.trailing i st₀ hst₀ hclosed hfailed
    newest := fun a' ha' => by cases ha'
    linked := by
      refine (h.linked.concat ?_ (fun i hi => absurd hi List.not_mem_nil) ?_).mono ?_ ?_
      · intro a' ha'
        cases ha'
        exact (List.getElem?_eq_some_iff.1 hsa).1
      · intro _ i st hst hi
        obtain rfl : a.ref = i := of_decide_eq_true hi
        obtain rfl : sa = st := Option.some.inj (hsa.symm.trans hst)
        exact hopen
      · exact (List.length_modify _ _ _).ge
      · intro i st hst hclosed
        refine ⟨_, getElem?_modify_of _ hst, ?_⟩
        by_cases hai : a.ref = i
        · rw [if_pos hai]
        · rw [if_neg hai]
          exact hclosed }

/-- A stroke is begun, once no other is in progress. -/
lemma Inv.begin (h : c.Inv) (ha : c.active = none) (strokeId : String) (opts : BeginStrokeOptions) :
    Inv { c with
      strokes := c.strokes ++ [⟨strokeId, false, [], false⟩]
      active := some ⟨c.strokes.length, strokeId⟩
      activeSeq := 1
      pendingPoint := none
      sends := c.sends ++ [⟨some ⟨c.strokes.length, strokeId⟩, .begins strokeId opts 1, []⟩] } := by
  have hof : ∀ i,
      (⟨some ⟨c.strokes.length, strokeId⟩, .begins strokeId opts 1, []⟩ : QueuedSend).ofStroke i =
      decide (c.strokes.length = i) := fun i => rfl
  have hcases : ∀ i st, (c.strokes ++ [⟨strokeId, false, [], false⟩])[i]? = some st →
      (c.strokes[i]? = some st ∧ c.strokes.length ≠ i) ∨ i = c.strokes.length ∧
        st = ⟨strokeId, false, [], false⟩ := by
    intro i st hst
    rcases lt_or_ge i c.strokes.length with hi | hi
    · rw [List.getElem?_append_left hi] at hst
      exact .inl ⟨hst, hi.ne'⟩
    · rw [List.getElem?_append_right hi, List.getElem?_singleton] at hst
      obtain ⟨hi', hst⟩ := Option.ite_none_right_eq_some.1 hst
      exact .inr ⟨by omega, (Option.some.inj hst).symm⟩
  have hnew : sendsOf c.strokes.length c.sends = [] := by
    refine sendsOf_eq_nil fun t ht => ofStroke_eq_false.2 fun a hat hlen => ?_
    have := h.linked.known t ht a hat
    omega
  have hclosed : ∀ (i : ℕ) (st : Stroke), c.strokes[i]? = some st → st.closed = true := by
    intro i st hst
    rw [← Bool.not_eq_false, h.closed i st hst, ha]
    rintro ⟨a', ha', -⟩
    cases ha'
  exact {
    drawn := by
      intro i st hst
      rcases hcases i st hst with ⟨hst, hi⟩ | ⟨rfl, rfl⟩
      · obtain ⟨⟨d, hd, hending, -⟩, hpoints⟩ := h.drawn i st hst
        rw [sendsOf_concat_other (by rw [hof]; exact decide_eq_false hi)]
        refine ⟨⟨d, hd, hending, fun hc => ?_⟩, hpoints⟩
        rw [hclosed i st hst] at hc
        cases hc
      · rw [sendsOf_concat_of (by rw [hof]; exact decide_eq_true rfl), hnew]
        exact ⟨⟨.begun opts, rfl, rfl, fun _ k hk => (List.mem_singleton.1 hk).le⟩,
          List.Sublist.refl _⟩
    closed := by
      intro i st hst
      rcases hcases i st hst with ⟨hst, hi⟩ | ⟨rfl, rfl⟩
      · refine ⟨fun hc => ?_, fun ⟨a', ha', hai⟩ => ?_⟩
        · rw [hclosed i st hst] at hc
          cases hc
        · cases ha'
          exact absurd hai hi
      · exact ⟨fun _ => ⟨_, rfl, rfl⟩, fun _ => rfl⟩
    active := by
      intro a' ha'
      cases ha'
      exact ⟨_, List.getElem?_concat_length, rfl⟩
    trailing := by
      intro i st hst hc hfailed
      rcases hcases i st hst with ⟨hst, hi⟩ | ⟨rfl, rfl⟩
      · rw [sendsOf_concat_other (by rw [hof]; exact decide_eq_false hi)]
        exact h.trailing i st hst hc hfailed
      · cases hc
    newest := by
      intro a' ha' st hst
      cases ha'
      rcases hcases _ st hst with ⟨-, hi⟩ | ⟨-, rfl⟩
      · exact absurd rfl hi
      · rw [sendsOf_concat_of (by rw [hof]; exact decide_eq_true rfl), hnew]
        rfl
    linked := by
      refine Linked.concat (h.linked.mono ?_ ?_) ?_ (fun i hi => absurd hi List.not_mem_nil)
        (fun he => by cases he)
      · rw [List.length_append]
        exact Nat.le_add_right _ _
      · intro i st hst hc
        exact ⟨st, (List.getElem?_append_left (List.getElem?_eq_some_iff.1 hst).1).trans hst, hc⟩
      · intro a' ha'
        cases ha'
        rw [List.length_append]
        exact Nat.lt_succ_self _ }

/-- A point is appended to the stroke in progress. -/
lemma Inv.append (h : c.Inv) {a : ActiveStroke} (ha : c.active = some a) (p : StrokePointPayload) :
    Inv { c with
      pendingPoint := some p
      strokes := c.strokes.modify a.ref fun st => { st with appended := st.appended ++ [p] } } := by
  obtain ⟨sa, hsa, hid, hopen⟩ := h.exists_open ha
  exact {
    drawn := by
      intro i st hst
      obtain ⟨st₀, hst₀, rfl⟩ := getElem?_modify_eq_some hst
      obtain ⟨hsends, hpoints⟩ := h.drawn i st₀ hst₀
      split
      · exact ⟨hsends, hpoints.trans (List.sublist_append_left _ _)⟩
      · exact ⟨hsends, hpoints⟩
    closed := by
      intro i st hst
      obtain ⟨st₀, hst₀, rfl⟩ := getElem?_modify_eq_some hst
      rw [← h.closed i st₀ hst₀]
      split <;> exact Iff.rfl
    active := by
      intro a' ha'
      obtain ⟨st, hst, hid'⟩ := h.active a' ha'
      refine ⟨_, getElem?_modify_of _ hst, ?_⟩
      split <;> exact hid'
    trailing := by
      intro i st hst hclosed hfailed
      obtain ⟨st₀, hst₀, rfl⟩ := getElem?_modify_eq_some hst
      by_cases hai : a.ref = i
      · subst hai
        obtain rfl : sa = st₀ := Option.some.inj (hsa.symm.trans hst₀)
        rw [if_pos rfl, hopen] at hclosed
        cases hclosed
      · rw [if_neg hai] at hclosed hfailed ⊢
        exact h.trailing i st₀ hst₀ hclosed hfailed
    newest := by
      intro a' ha' st hst
      obtain rfl : a = a' := Option.some.inj (ha.symm.trans ha')
      obtain ⟨st₀, hst₀, rfl⟩ := getElem?_modify_eq_some hst
      rw [if_pos rfl]
      exact ⟨st₀.appended, rfl, (h.drawn _ st₀ hst₀).points⟩
    linked := by
      refine h.linked.mono (List.length_modify _ _ _).ge fun i st hst hclosed => ?_
      refine ⟨_, getElem?_modify_of _ hst, ?_⟩
      split <;> exact hclosed }

/-- A send that is of no stroke: an undo of ended strokes, or a clear. -/
lemma Inv.queueOther (h : c.Inv) {t : QueuedSend} (hstroke : t.stroke = none)
    (hundone : ∀ i ∈ t.undoes, ∃ st, c.strokes[i]? = some st ∧ st.closed = true) :
    Inv { c with sends := c.sends ++ [t] } := by
  have hof : ∀ i, t.ofStroke i = false := fun i => by rw [QueuedSend.ofStroke, hstroke]; rfl
  have hsends : ∀ i, sendsOf i (c.sends ++ [t]) = sendsOf i c.sends := fun i =>
    sendsOf_concat_other (hof i) _
  exact {
    drawn := fun i st hst => (hsends i).symm ▸ h.drawn i st hst
    closed := h.closed
    active := h.active
    trailing := fun i st hst => by
      rw [hsends]
      exact h.trailing i st hst
    newest := fun a ha st hst => by
      rw [hsends]
      exact h.newest a ha st hst
    linked := by
      refine h.linked.concat (fun a ha => ?_) (fun i hi => ⟨hstroke, hundone i hi⟩)
        fun _ i _ _ hi => ?_
      · rw [hstroke] at ha
        cases ha
      · rw [hof] at hi
        cases hi }

/-- A stroke fails. -/
lemma Inv.fail (h : c.Inv) (ref : ℕ) :
    Inv { c with strokes := c.strokes.modify ref ({ · with failed := true }) } where
  drawn := by
    intro i st hst
    obtain ⟨st₀, hst₀, rfl⟩ := getElem?_modify_eq_some hst
    obtain ⟨hsends, hpoints⟩ := h.drawn i st₀ hst₀
    split <;> exact ⟨hsends, hpoints⟩
  closed := by
    intro i st hst
    obtain ⟨st₀, hst₀, rfl⟩ := getElem?_modify_eq_some hst
    rw [← h.closed i st₀ hst₀]
    split <;> exact Iff.rfl
  active := by
    intro a' ha'
    obtain ⟨st, hst, hid'⟩ := h.active a' ha'
    refine ⟨_, getElem?_modify_of _ hst, ?_⟩
    split <;> exact hid'
  trailing := by
    intro i st hst hclosed hfailed
    obtain ⟨st₀, hst₀, rfl⟩ := getElem?_modify_eq_some hst
    by_cases hi : ref = i
    · rw [if_pos hi] at hfailed
      cases hfailed
    · rw [if_neg hi] at hclosed hfailed ⊢
      exact h.trailing i st₀ hst₀ hclosed hfailed
  newest := by
    intro a' ha' st hst
    obtain ⟨st₀, hst₀, rfl⟩ := getElem?_modify_eq_some hst
    have := h.newest a' ha' st₀ hst₀
    split <;> exact this
  linked := by
    refine h.linked.mono (List.length_modify _ _ _).ge fun i st hst hclosed => ?_
    refine ⟨_, getElem?_modify_of _ hst, ?_⟩
    split <;> exact hclosed

end Sheet

end Locast.Client.Drawing
