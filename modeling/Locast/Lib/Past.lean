import Locast.Lib.Pool
import Mathlib.Algebra.GroupWithZero.Nat

/-!
# Programs that rely on their own past

`Automaton.past` remembers everything its program has done and been answered, so that an effect may
be justified by what came before it.  `Run.recalls` carries such a justification over to the history
of a run: whatever the program had done by then stands in the history before the effect.
`Run.counts` compares the history with the pasts of the tasks.
-/

namespace Locast.Lib

variable {E : Type} {R : E → Type} {Op α σ ι : Type}

namespace Automaton

variable {may : List ((e : E) × R e) → E → Prop} {expects : (e : E) → R e → Prop}
  {done : List ((e : E) × R e)}

/-- The automaton that remembers everything. -/
def past (may : List ((e : E) × R e) → E → Prop) (expects : (e : E) → R e → Prop) :
    Automaton E R (List ((e : E) × R e)) where
  allows done e := may done e
  expects := expects
  next done e r := done ++ [⟨e, r⟩]

end Automaton

/-- Where a list that ends in `a` can be cut. -/
lemma cut_concat {α : Type} {l pre post : List α} {a x : α} (h : l ++ [a] = pre ++ x :: post) :
    (pre = l ∧ x = a) ∨ ∃ post', l = pre ++ x :: post' := by
  rcases List.eq_nil_or_concat post with rfl | ⟨m, z, rfl⟩
  · obtain ⟨rfl, hx⟩ := List.append_inj' h rfl
    exact .inl ⟨rfl, (List.singleton_inj.1 hx).symm⟩
  · have h' : l ++ [a] = (pre ++ x :: m) ++ [z] := by simpa using h
    exact .inr ⟨m, (List.append_inj' h' rfl).1⟩

/-- What passes `q` at most once is the same wherever it stands. -/
lemma eq_of_countP_le_one {α : Type} {q : α → Bool} {l : List α} {x y : α} (hle : l.countP q ≤ 1)
    (hx : x ∈ l) (hy : y ∈ l) (hqx : q x = true) (hqy : q y = true) : x = y := by
  induction l with
  | nil => simp at hx
  | cons a l ih =>
    rw [List.countP_cons] at hle
    have hrest : q a = true → ∀ z ∈ l, ¬q z = true := fun ha z hz hqz => by
      have hpos := List.countP_pos_iff.2 ⟨z, hz, hqz⟩
      rw [if_pos ha] at hle
      omega
    rcases List.mem_cons.1 hx with rfl | hxl <;> rcases List.mem_cons.1 hy with rfl | hyl
    · rfl
    · exact absurd hqy (hrest hqx y hyl)
    · exact absurd hqx (hrest hqy x hxl)
    · exact ih (by omega) hxl hyl

/-- Every effect of the list is justified by what stands before it. -/
def Past (may : List ((e : E) × R e) → E → Prop) (done : List ((e : E) × R e)) : Prop :=
  ∀ l x l', done = l ++ x :: l' → may l x.1

namespace Past

variable {may : List ((e : E) × R e) → E → Prop} {done : List ((e : E) × R e)}

lemma nil : Past may [] := fun l x l' h => by simp at h

lemma append {x : (e : E) × R e} (h : Past may done) (hx : may done x.1) :
    Past may (done ++ [x]) := by
  intro l y l' hl
  rcases cut_concat hl with ⟨rfl, rfl⟩ | ⟨m, hm⟩
  · exact hx
  · exact h l y m hm

end Past

namespace System

variable {S : System E R Op α σ ι} {guard : List (Did R Op σ ι) → Did R Op σ ι → Prop} {s₀ : σ}
  {h : List (Did R Op σ ι)} {p : Pool R Op α σ}

/-- What a step did and was answered. -/
def Did.record (d : Did R Op σ ι) : (e : E) × R e := ⟨d.effect, d.resp⟩

/-- The operation did all this in the history, in this order. -/
def Recorded (h : List (Did R Op σ ι)) (op : Op) (done : List ((e : E) × R e)) : Prop :=
  (done.map fun x => (op, x)).Sublist (h.map fun d => (d.op, Did.record d))

namespace Recorded

variable {op : Op} {done : List ((e : E) × R e)}

lemma nil : Recorded h op [] := List.nil_sublist _

lemma append (hr : Recorded h op done) (l : List (Did R Op σ ι)) : Recorded (h ++ l) op done := by
  rw [Recorded, List.map_append]
  exact hr.trans (List.sublist_append_left _ _)

lemma snoc {d : Did R Op σ ι} (hr : Recorded h d.op done) :
    Recorded (h ++ [d]) d.op (done ++ [Did.record d]) := by
  rw [Recorded, List.map_append, List.map_append]
  exact List.Sublist.append hr (List.Sublist.refl _)

/-- Where something that was done stands in the history, and what stands before it. -/
lemma split {l l' : List ((e : E) × R e)} {x : (e : E) × R e}
    (hr : Recorded h op (l ++ x :: l')) :
    ∃ pre d post, h = pre ++ d :: post ∧ d.op = op ∧ Did.record d = x ∧ Recorded pre op l := by
  rw [Recorded, List.map_append, List.map_cons] at hr
  obtain ⟨m, m', hm, hl, hl'⟩ := List.append_sublist_iff.1 hr
  obtain ⟨n, n', rfl, hn, -⟩ := List.cons_sublist_iff.1 hl'
  obtain ⟨a, b, rfl⟩ := List.append_of_mem hn
  rw [List.append_assoc, ← List.append_assoc, List.cons_append] at hm
  obtain ⟨pre, rest, rfl, hpre, hrest⟩ := List.map_eq_append_iff.1 hm
  obtain ⟨d, post, rfl, hd, -⟩ := List.map_eq_cons_iff.1 hrest
  obtain ⟨hop, hx⟩ := Prod.mk.inj hd
  refine ⟨pre, d, post, rfl, hop, hx, ?_⟩
  rw [Recorded, hpre]
  exact hl.trans (List.sublist_append_left _ _)

lemma mem (hr : Recorded h op done) {x : (e : E) × R e} (hx : x ∈ done) :
    ∃ d ∈ h, d.op = op ∧ Did.record d = x := by
  obtain ⟨l, l', rfl⟩ := List.append_of_mem hx
  obtain ⟨pre, d, post, rfl, hop, hrec, -⟩ := hr.split
  exact ⟨d, by simp, hop, hrec⟩

end Recorded

/-- **The rule of the past.**  Every effect of a run was allowed by what its task had done before
it, and all of that stands in the history before it; and so for what each task has done in all. -/
theorem Run.recalls {may : Op → List ((e : E) × R e) → E → Prop} {expects : (e : E) → R e → Prop}
    {Q : Op → α → List ((e : E) × R e) → Prop}
    (hprog : ∀ op, (S.program op).Sat (.past (may op) expects) (Q op) [])
    (hexpect : ∀ d, S.Handled d → expects d.effect d.resp) (r : S.Run guard s₀ h p) :
    (∀ pre d post, h = pre ++ d :: post →
      ∃ done, Recorded pre d.op done ∧ Past (may d.op) done ∧ may d.op done d.effect) ∧
    ∀ t ∈ p.tasks, Recorded h t.op t.done ∧ Past (may t.op) t.done ∧
      t.rest.Sat (.past (may t.op) expects) (Q t.op) t.done := by
  induction r with
  | start =>
    exact ⟨fun pre d post hp => by simp at hp, fun t ht => absurd ht List.not_mem_nil⟩
  | spawn op r ih =>
    refine ⟨ih.1, fun t ht => ?_⟩
    rcases List.mem_append.1 ht with ht | ht
    · exact ih.2 t ht
    · rw [List.mem_singleton.1 ht]
      exact ⟨.nil, .nil, hprog op⟩
  | @advance h p d p' i inp r hd hg ih =>
    obtain ⟨k, done, ht, -, hh, rfl⟩ := advance_spec hd
    obtain ⟨hrec, hpast, hsat⟩ := ih.2 _ (List.mem_of_getElem? ht)
    refine ⟨fun pre d' post hp => ?_, fun t ht' => ?_⟩
    · rcases cut_concat hp with ⟨rfl, rfl⟩ | ⟨m, hm⟩
      · exact ⟨done, hrec, hpast, hsat.1⟩
      · exact ih.1 pre d' m hm
    · rcases List.mem_or_eq_of_mem_set ht' with ht' | rfl
      · obtain ⟨hrec', hrest⟩ := ih.2 t ht'
        exact ⟨hrec'.append _, hrest⟩
      · exact ⟨Recorded.snoc hrec, hpast.append hsat.1, hsat.2 _ (hexpect _ hh)⟩

/-- **The invariant rule of the past.**  `I` relates the history, the state and what each task has
done; a step may use what its task was allowed to do after its own past. -/
theorem Run.past_invariant {may : Op → List ((e : E) × R e) → E → Prop}
    {expects : (e : E) → R e → Prop} {Q : Op → α → List ((e : E) × R e) → Prop}
    (hprog : ∀ op, (S.program op).Sat (.past (may op) expects) (Q op) [])
    (hexpect : ∀ d, S.Handled d → expects d.effect d.resp)
    (I : List (Did R Op σ ι) → σ → List (List ((e : E) × R e)) → Prop) (hstart : I [] s₀ [])
    (hspawn : ∀ h s gs, I h s gs → I h s (gs ++ [[]]))
    (hstep : ∀ h gs (i : ℕ) g d, I h d.before gs → gs[i]? = some g → may d.op g d.effect →
      S.Handled d → guard h d → I (h ++ [d]) d.after (gs.set i (g ++ [Did.record d])))
    (r : S.Run guard s₀ h p) : I h p.state (p.tasks.map Task.done) := by
  induction r with
  | start => exact hstart
  | spawn op r ih =>
    rw [List.map_append]
    exact hspawn _ _ _ ih
  | @advance h p d p' i inp r hd hg ih =>
    obtain ⟨k, done, ht, hb, hh, rfl⟩ := advance_spec hd
    have hsat := ((r.recalls hprog hexpect).2 _ (List.mem_of_getElem? ht)).2.2
    rw [List.map_set]
    exact hstep h _ i done d (hb ▸ ih) (by simp [ht]) hsat.1 hh hg

lemma sum_set {l : List ℕ} {i n : ℕ} (m : ℕ) (hn : l[i]? = some n) :
    (l.set i m).sum + n = l.sum + m := by
  induction l generalizing i with
  | nil => simp at hn
  | cons k l ih =>
    cases i with
    | zero =>
      obtain rfl := Option.some.inj hn
      simp only [List.set_cons_zero, List.sum_cons]
      omega
    | succ i =>
      have h := ih (i := i) (by simpa using hn)
      simp only [List.set_cons_succ, List.sum_cons]
      omega

/-- **The history is what the tasks did**: it holds as many steps of a kind as their pasts
together. -/
theorem Run.counts (P : Op → (e : E) × R e → Bool) (r : S.Run guard s₀ h p) :
    h.countP (fun d => P d.op (Did.record d)) =
      (p.tasks.map fun t => t.done.countP (P t.op)).sum := by
  induction r with
  | start => rfl
  | spawn op r ih => simpa [spawned] using ih
  | @advance h p d p' i inp r hd hg ih =>
    obtain ⟨k, done, ht, -, -, rfl⟩ := advance_spec hd
    have hold : (p.tasks.map fun t => t.done.countP (P t.op))[i]? =
        some (done.countP (P d.op)) := by simp [ht]
    have hset := sum_set ((done ++ [Did.record d]).countP (P d.op)) hold
    rw [List.countP_append, ih, List.map_set]
    change _ = (List.set _ i ((done ++ [Did.record d]).countP (P d.op))).sum
    rw [List.countP_append] at hset ⊢
    simp only [List.countP_singleton] at hset ⊢
    omega

/-- Every step of a run stands in the past of a task. -/
lemma Run.task_of_mem (r : S.Run guard s₀ h p) :
    ∀ d ∈ h, ∃ t ∈ p.tasks, t.op = d.op ∧ Did.record d ∈ t.done := by
  induction r with
  | start => exact fun d hd => absurd hd List.not_mem_nil
  | spawn op r ih =>
    intro d hd
    obtain ⟨t, ht, rest⟩ := ih d hd
    exact ⟨t, List.mem_append_left _ ht, rest⟩
  | @advance h p d p' i inp r hd hg ih =>
    obtain ⟨k, done, ht, -, -, rfl⟩ := advance_spec hd
    have hlt := (List.getElem?_eq_some_iff.1 ht).1
    intro d' hd'
    rcases List.mem_append.1 hd' with hd' | hd'
    · obtain ⟨t, htmem, hop, hdone⟩ := ih d' hd'
      obtain ⟨j, hj⟩ := List.mem_iff_getElem?.1 htmem
      by_cases hij : i = j
      · subst hij
        obtain rfl := Option.some.inj (ht.symm.trans hj)
        exact ⟨_, List.mem_set hlt _, hop, List.mem_append_left _ hdone⟩
      · exact ⟨t, List.mem_iff_getElem?.2 ⟨j, by rw [List.getElem?_set_ne hij, hj]⟩, hop, hdone⟩
    · obtain rfl := List.mem_singleton.1 hd'
      exact ⟨_, List.mem_set hlt _, rfl, by simp [Did.record]⟩

/-- What holds after a step and is kept by all later ones holds at the end. -/
theorem Run.since {I : σ → Prop} {pre post : List (Did R Op σ ι)} {x : Did R Op σ ι}
    (r : S.Run guard s₀ h p) (hh : h = pre ++ x :: post) (hx : I x.after)
    (hkeep : ∀ d ∈ post, I d.before → I d.after) : I p.state := by
  induction r generalizing post with
  | start => simp at hh
  | spawn op r ih => exact ih hh hkeep
  | @advance h p d p' i inp r hd hg ih =>
    obtain ⟨k, done, -, hb, -, rfl⟩ := advance_spec hd
    rcases List.eq_nil_or_concat post with rfl | ⟨m, z, rfl⟩
    · obtain rfl := List.singleton_inj.1 (List.append_inj' hh rfl).2
      exact hx
    · have hm : h ++ [d] = (pre ++ x :: m) ++ [z] := by simpa using hh
      obtain ⟨hinit, hz⟩ := List.append_inj' hm rfl
      obtain rfl := List.singleton_inj.1 hz
      exact hkeep d (by simp) (hb ▸ ih hinit fun y hy => hkeep y (by simp [hy]))

/-- What no step changes is what it was. -/
lemma Run.kept {β : Type} (f : σ → β) {pre post : List (Did R Op σ ι)} {x : Did R Op σ ι}
    (r : S.Run guard s₀ h p) (hh : h = pre ++ x :: post)
    (hkeep : ∀ d ∈ post, f d.after = f d.before) : f p.state = f x.after :=
  r.since (I := fun s => f s = f x.after) hh rfl fun d hd hb => (hkeep d hd).trans hb

/-- A run up to any of its steps. -/
lemma Run.split {pre post : List (Did R Op σ ι)} {d : Did R Op σ ι} (r : S.Run guard s₀ h p)
    (hh : h = pre ++ d :: post) :
    S.Handled d ∧ guard pre d ∧ ∃ p', S.Run guard s₀ pre p' ∧ p'.state = d.before := by
  induction r generalizing post with
  | start => simp at hh
  | spawn op r ih => exact ih hh
  | @advance h p d' p' i inp r hd hg ih =>
    rcases cut_concat hh with ⟨rfl, rfl⟩ | ⟨m, hm⟩
    · obtain ⟨k, done, -, hb, hh, rfl⟩ := advance_spec hd
      exact ⟨hh, hg, p, r, hb.symm⟩
    · exact ih hm

end System

end Locast.Lib
