import Locast.Lib.Past
import Locast.Lib.Solo

/-!
# Traces of one program

What a single program does when its effects are answered one after another, by anything.  `Sat.does`
carries a specification over the past to the trace; `Solo.does` says that a program that runs alone
leaves such a trace.
-/

namespace Locast.Lib

namespace Prog

variable {E : Type} {R : E → Type} {α : Type}

/-- The program performs these effects, answered so, and is left with the last program. -/
inductive Does : Prog E R α → List ((e : E) × R e) → Prog E R α → Prop
  | nil (p : Prog E R α) : Does p [] p
  | cons {e : E} {k : R e → Prog E R α} {r : R e} {tr : List ((e : E) × R e)} {q : Prog E R α}
      (h : Does (k r) tr q) : Does (.op e k) (⟨e, r⟩ :: tr) q

variable {may : List ((e : E) × R e) → E → Prop} {expects : (e : E) → R e → Prop}
  {Q : α → List ((e : E) × R e) → Prop} {p q : Prog E R α} {done tr : List ((e : E) × R e)}

/-- The past only grows, and only at its end. -/
lemma Sat.grows (h : p.Sat (.past may expects) Q done) :
    p.Sat (.past may expects) (fun a done' => Q a done' ∧ done <+: done') done := by
  induction p generalizing done with
  | ret a => exact ⟨h, List.prefix_rfl⟩
  | op e k ih =>
    refine ⟨h.1, fun r hr => (ih r (h.2 r hr)).mono fun a done' ⟨hq, hpre⟩ => ⟨hq, ?_⟩⟩
    exact (List.prefix_append _ _).trans hpre

/-- **What is specified of the past holds along every trace.** -/
theorem Sat.does (h : p.Sat (.past may expects) Q done) (hd : p.Does tr q)
    (he : ∀ x ∈ tr, expects x.1 x.2) :
    q.Sat (.past may expects) Q (done ++ tr) ∧
      ∀ l x l', tr = l ++ x :: l' → may (done ++ l) x.1 := by
  induction hd generalizing done with
  | nil p => exact ⟨by rwa [List.append_nil], fun l x l' hl => by simp at hl⟩
  | @cons e k r tr q hd ih =>
    obtain ⟨hsat, hmay⟩ := ih (h.2 r (he ⟨e, r⟩ (by simp))) fun x hx => he x (by simp [hx])
    refine ⟨by simpa [Automaton.past] using hsat, fun l x l' hl => ?_⟩
    cases l with
    | nil =>
      obtain ⟨rfl, rfl⟩ := List.cons.inj hl
      rw [List.append_nil]
      exact h.1
    | cons y l =>
      obtain ⟨rfl, hrest⟩ := List.cons.inj hl
      simpa [Automaton.past] using hmay l x l' hrest

/-- **What a program may only do is all it does.** -/
theorem Sat.does_only {ok : E → Prop} {Q : α → Unit → Prop}
    (h : p.Sat (.only expects ok) Q ()) (hd : p.Does tr q) (he : ∀ x ∈ tr, expects x.1 x.2) :
    ∀ x ∈ tr, ok x.1 := by
  induction hd with
  | nil p => exact fun x hx => by simp at hx
  | @cons e k r tr q hd ih =>
    have hrest := ih (h.2 r (he ⟨e, r⟩ List.mem_cons_self)) fun x hx =>
      he x (List.mem_cons_of_mem _ hx)
    intro x hx
    rcases List.mem_cons.1 hx with rfl | hx
    · exact h.1
    · exact hrest x hx

/-- A trace of two programs, one after the other. -/
lemma Does.of_bind {β : Type} {m : Prog E R α} {f : α → Prog E R β} {b : β}
    (h : (m.bind f).Does tr (.ret b)) : ∃ a tr₁ tr₂, tr = tr₁ ++ tr₂ ∧ m.Does tr₁ (.ret a) ∧
      (f a).Does tr₂ (.ret b) := by
  induction m generalizing tr with
  | ret a => exact ⟨a, [], tr, rfl, .nil _, h⟩
  | op e k ih =>
    cases h with
    | cons hrest =>
      obtain ⟨a, tr₁, tr₂, rfl, h₁, h₂⟩ := ih _ hrest
      exact ⟨a, _, tr₂, rfl, .cons h₁, h₂⟩

/-- **What is specified of an automaton's state holds at the end of every trace.** -/
theorem Sat.does_ret {G : Type} {A : Automaton E R G} {Q : α → G → Prop} {g : G} {a : α}
    (h : p.Sat A Q g) (hd : p.Does tr (.ret a)) (he : ∀ x ∈ tr, A.expects x.1 x.2) :
    Q a (A.after g tr) := by
  induction tr generalizing p g with
  | nil =>
    cases hd
    exact h
  | cons x tr ih =>
    cases hd with
    | cons hrest =>
      exact ih (h.2 _ (he _ List.mem_cons_self)) hrest fun y hy => he y (List.mem_cons_of_mem _ hy)

end Prog

/-- What a program did that ran alone is a trace of it. -/
lemma System.Solo.does {E : Type} {R : E → Type} {Op α β σ ι : Type} {S : System E R Op α σ ι}
    {op : Op} {p : Prog E R β} {s s' : σ} {h : List (Did R Op σ ι)} {b : β}
    (hs : S.Solo op p s h b s') : p.Does (h.map System.Did.record) (.ret b) := by
  induction hs with
  | ret b s => exact .nil _
  | step inp r hd rest ih => exact .cons ih

end Locast.Lib
