import Mathlib.Data.List.Basic
import Mathlib.Data.Set.Basic

/-!
# Programs cut at their effects

A `Prog E R α` performs effects `e : E` one after another, each answered by an `R e`, and ends with
an `α`.  It is the shape of an `async fn` whose awaits are the effects: between two of them anything
else may happen.

`Prog.Sat` is a logic for such programs.  An `Automaton` watches the effects of one program and
their answers; `Sat` says that the program only performs an effect the automaton allows at that
point and that its end satisfies a postcondition, as long as every answer is one the automaton
expects.
-/

namespace Locast.Lib

/-- A program with effects `E`, answered by `R`, and result `α`. -/
inductive Prog (E : Type) (R : E → Type) (α : Type) : Type
  | ret (a : α)
  | op (e : E) (k : R e → Prog E R α)

namespace Prog

variable {E : Type} {R : E → Type} {α β : Type}

/-- Sequencing. -/
def bind : Prog E R α → (α → Prog E R β) → Prog E R β
  | ret a, f => f a
  | op e k, f => op e fun r => (k r).bind f

instance : Monad (Prog E R) where
  pure := ret
  bind := bind

/-- One effect. -/
def perform (e : E) : Prog E R (R e) := op e ret

@[simp] lemma pure_eq (a : α) : (pure a : Prog E R α) = ret a := rfl
@[simp] lemma ret_bind (a : α) (f : α → Prog E R β) : (ret a >>= f) = f a := rfl

@[simp] lemma op_bind (e : E) (k : R e → Prog E R α) (f : α → Prog E R β) :
    (op e k >>= f) = op e fun r => k r >>= f := rfl

@[simp] lemma perform_bind (e : E) (f : R e → Prog E R β) : (perform e >>= f) = op e f := rfl

/-- Performs `f` on every element of a list, in order. -/
def forEach {β : Type} (f : β → Prog E R Unit) : List β → Prog E R Unit
  | [] => ret ()
  | x :: l => do
    f x
    forEach f l

/-- The results of `f` on every element of a list, in order. -/
def collect {β γ : Type} (f : β → Prog E R γ) : List β → Prog E R (List γ)
  | [] => ret []
  | x :: l => do
    let y ← f x
    let ys ← collect f l
    pure (y :: ys)

end Prog

/-! ### The logic -/

/-- What an observer of one program allows in each of its states, which answers it expects, and how
it moves. -/
structure Automaton (E : Type) (R : E → Type) (G : Type) where
  allows : G → E → Prop
  expects : (e : E) → R e → Prop
  next : G → (e : E) → R e → G

namespace Automaton

variable {E : Type} {R : E → Type} {G : Type}

/-- The state after a list of effects and their answers. -/
def after (A : Automaton E R G) (g : G) (done : List ((e : E) × R e)) : G :=
  done.foldl (fun g d => A.next g d.1 d.2) g

@[simp] lemma after_nil (A : Automaton E R G) (g : G) : A.after g [] = g := rfl

@[simp] lemma after_append (A : Automaton E R G) (g : G) (done : List ((e : E) × R e))
    (d : (e : E) × R e) : A.after g (done ++ [d]) = A.next (A.after g done) d.1 d.2 := by
  simp [after]

/-- The automaton allows these effects, one after another, and expects their answers. -/
def Admits (A : Automaton E R G) (g : G) : List ((e : E) × R e) → Prop
  | [] => True
  | d :: done => A.allows g d.1 ∧ A.expects d.1 d.2 ∧ A.Admits (A.next g d.1 d.2) done

lemma admits_append {A : Automaton E R G} {g : G} {done : List ((e : E) × R e)}
    {d : (e : E) × R e} : A.Admits g (done ++ [d]) ↔
      A.Admits g done ∧ A.allows (A.after g done) d.1 ∧ A.expects d.1 d.2 := by
  induction done generalizing g with
  | nil => simp [Admits]
  | cons d' done ih => simp [Admits, ih, after, and_assoc]

/-- The automaton with no memory that allows the effects in `ok`. -/
def only (expects : (e : E) → R e → Prop) (ok : E → Prop) : Automaton E R Unit where
  allows _ e := ok e
  expects := expects
  next _ _ _ := ()

section Gaining

variable {T : Type} {expects : (e : E) → R e → Prop} {needs : E → Option T}
  {gains : (e : E) → R e → Option T}

/-- The automaton of tokens: an effect that needs one is allowed once an answer has brought it. -/
def gaining (expects : (e : E) → R e → Prop) (needs : E → Option T)
    (gains : (e : E) → R e → Option T) : Automaton E R (Set T) where
  allows g e := ∀ x, needs e = some x → x ∈ g
  expects := expects
  next g e r := {x | gains e r = some x} ∪ g

/-- **A token that was needed was held from the start or brought before.** -/
theorem gained_of_admits {g : Set T} {done : List ((e : E) × R e)}
    (h : (gaining expects needs gains).Admits g done) {i : ℕ} {d : (e : E) × R e} {x : T}
    (hi : done[i]? = some d) (hx : needs d.1 = some x) :
    x ∈ g ∨ ∃ j < i, ∃ d', done[j]? = some d' ∧ gains d'.1 d'.2 = some x := by
  induction done generalizing g i with
  | nil => cases hi
  | cons d₀ done ih =>
    obtain ⟨ha, -, hrest⟩ := h
    cases i with
    | zero =>
      cases Option.some.inj hi
      exact .inl (ha x hx)
    | succ i =>
      rcases ih hrest hi with (hgain | hg) | ⟨j, hji, d', hd', hgain⟩
      · exact .inr ⟨0, i.succ_pos, d₀, rfl, hgain⟩
      · exact .inl hg
      · exact .inr ⟨j + 1, Nat.succ_lt_succ hji, d', hd', hgain⟩

end Gaining

end Automaton

namespace Prog

variable {E : Type} {R : E → Type} {G : Type} {α β γ : Type} {A : Automaton E R G}

/-- **The program logic.**  From `g`, the program performs only what `A` allows and ends in `Q`. -/
def Sat (A : Automaton E R G) (Q : α → G → Prop) : Prog E R α → G → Prop
  | ret a, g => Q a g
  | op e k, g => A.allows g e ∧ ∀ r, A.expects e r → (k r).Sat A Q (A.next g e r)

variable {Q Q' : α → G → Prop}

@[simp] lemma sat_ret {a : α} {g : G} : (ret a : Prog E R α).Sat A Q g ↔ Q a g := Iff.rfl

/-- The sequencing rule. -/
theorem sat_bind {m : Prog E R α} {f : α → Prog E R β} {Q : β → G → Prop} {g : G} :
    (m >>= f).Sat A Q g ↔ m.Sat A (fun a g' => (f a).Sat A Q g') g := by
  induction m generalizing g with
  | ret a => rfl
  | op e k ih => exact and_congr_right fun _ => forall_congr' fun r => imp_congr_right fun _ => ih r

/-- The rule of consequence. -/
theorem Sat.mono {m : Prog E R α} {g : G} (h : m.Sat A Q g) (hq : ∀ a g', Q a g' → Q' a g') :
    m.Sat A Q' g := by
  induction m generalizing g with
  | ret a => exact hq a g h
  | op e k ih => exact ⟨h.1, fun r hr => ih r (h.2 r hr)⟩

lemma Sat.bind {m : Prog E R α} {f : α → Prog E R β} {Q' : β → G → Prop} {g : G}
    (h : m.Sat A Q g) (hf : ∀ a g', Q a g' → (f a).Sat A Q' g') : (m >>= f).Sat A Q' g :=
  sat_bind.2 (h.mono hf)

/-- One effect, then the rest. -/
lemma Sat.step {e : E} {f : R e → Prog E R β} {Q : β → G → Prop} {g : G} (ha : A.allows g e)
    (hf : ∀ r, A.expects e r → (f r).Sat A Q (A.next g e r)) :
    ((op e ret : Prog E R (R e)) >>= f).Sat A Q g := ⟨ha, hf⟩

/-- The rule for loops: each round keeps the loop invariant. -/
theorem sat_forEach {f : β → Prog E R Unit} {l : List β} {I : List β → G → Prop} {g : G}
    (hf : ∀ x l' g', I (x :: l') g' → (f x).Sat A (fun _ => I l') g') (h : I l g) :
    (forEach f l).Sat A (fun _ => I []) g := by
  induction l generalizing g with
  | nil => exact h
  | cons x l ih => exact (hf x l g h).bind fun _ g' hg' => ih hg'

lemma sat_collect_from {f : β → Prog E R γ} {l : List β} {I : List γ → G → Prop} {g : G}
    (hf : ∀ x ∈ l, ∀ ys g', I ys g' → (f x).Sat A (fun y g'' => I (ys ++ [y]) g'') g')
    {ys₀ : List γ} (h : I ys₀ g) : (collect f l).Sat A (fun ys g' => I (ys₀ ++ ys) g') g := by
  induction l generalizing g ys₀ with
  | nil => simpa [collect] using h
  | cons x l ih =>
    refine (hf x List.mem_cons_self ys₀ g h).bind fun y g' hg' => ?_
    refine (ih (fun z hz => hf z (List.mem_cons_of_mem _ hz)) hg').bind fun ys g'' hg'' => ?_
    simpa using hg''

/-- Every program does what an automaton allows that allows everything. -/
lemma sat_of_allows (hA : ∀ g e, A.allows g e) (p : Prog E R α) (g : G) :
    p.Sat A (fun _ _ => True) g := by
  induction p generalizing g with
  | ret a => exact trivial
  | op e k ih => exact ⟨hA g e, fun r _ => ih r _⟩

/-- A program that holds every token may do anything. -/
lemma sat_gaining_univ {T : Type} {expects : (e : E) → R e → Prop} {needs : E → Option T}
    {gains : (e : E) → R e → Option T} (p : Prog E R α) :
    p.Sat (.gaining expects needs gains) (fun _ _ => True) Set.univ := by
  induction p with
  | ret a => exact trivial
  | op e k ih =>
    refine ⟨fun x _ => trivial, fun r _ => ?_⟩
    have hnext : (Automaton.gaining expects needs gains).next Set.univ e r = Set.univ :=
      Set.union_univ _
    rw [hnext]
    exact ih r

/-- The rule for loops that collect results. -/
theorem sat_collect {f : β → Prog E R γ} {l : List β} {I : List γ → G → Prop} {g : G}
    (hf : ∀ x ∈ l, ∀ ys g', I ys g' → (f x).Sat A (fun y g'' => I (ys ++ [y]) g'') g')
    (h : I [] g) : (collect f l).Sat A I g :=
  sat_collect_from hf h

end Prog

end Locast.Lib
