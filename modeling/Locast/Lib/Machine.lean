import Mathlib.Logic.Relation
import Mathlib.Order.Basic
import Mathlib.Tactic.SplitIfs

/-!
# Machines and their runs

A machine says what an input does to a state, if it can happen there at all.  A run is guarded by a
condition on the state before each step and its input; an invariant, or a quantity that never goes
back, is checked on one step.
-/

namespace Locast.Lib

variable {σ ι : Type*}

/-- What an input does to a state, if it can happen there. -/
abbrev Machine (σ ι : Type*) : Type _ := σ → ι → Option σ

namespace Machine

variable {M : Machine σ ι} {guard : σ → ι → Prop} {s s' s'' : σ}

/-- A step on an input that meets the condition. -/
def Step (M : Machine σ ι) (guard : σ → ι → Prop) (s s' : σ) : Prop :=
  ∃ i, guard s i ∧ M s i = some s'

/-- A run whose steps all meet the condition leads from one state to the other. -/
def Reaches (M : Machine σ ι) (guard : σ → ι → Prop) : σ → σ → Prop :=
  Relation.ReflTransGen (M.Step guard)

/-- The condition of a run in which anything may happen. -/
def free (_ : σ) (_ : ι) : Prop := True

instance (s : σ) (i : ι) : Decidable (free s i) := isTrue trivial

lemma Reaches.trans (r : M.Reaches guard s s') (r' : M.Reaches guard s' s'') :
    M.Reaches guard s s'' :=
  Relation.ReflTransGen.trans r r'

/-- **Invariants.** What every step of the run preserves holds where it ends. -/
theorem Reaches.invariant {I : σ → Prop} (r : M.Reaches guard s s') (hs : I s)
    (hstep : ∀ s i s', I s → guard s i → M s i = some s' → I s') : I s' := by
  induction r with
  | refl => exact hs
  | tail _ h ih =>
    obtain ⟨i, hg, hi⟩ := h
    exact hstep _ i _ ih hg hi

/-- **Progress.** A quantity that no step takes back, from a state of the invariant, only grows. -/
theorem Reaches.mono {I : σ → Prop} {β : Type*} [Preorder β] (f : σ → β)
    (r : M.Reaches guard s s') (hs : I s)
    (hstep : ∀ s i s', I s → guard s i → M s i = some s' → I s' ∧ f s ≤ f s') : f s ≤ f s' := by
  have h : I s' ∧ f s ≤ f s' := by
    refine r.invariant (I := fun t => I t ∧ f s ≤ f t) ⟨hs, le_rfl⟩ ?_
    rintro t i t' ⟨ht, hle⟩ hg hi
    obtain ⟨ht', hle'⟩ := hstep t i t' ht hg hi
    exact ⟨ht', hle.trans hle'⟩
  exact h.2

/-! ### Played runs -/

/-- Feeds the inputs one after the other, as long as each meets the condition. -/
def play (M : Machine σ ι) (guard : σ → ι → Prop) [∀ s i, Decidable (guard s i)] (s : σ) :
    List ι → Option σ
  | [] => some s
  | i :: rest => if guard s i then (M s i).bind fun s' => M.play guard s' rest else none

variable [∀ s i, Decidable (guard s i)]

-- The equations of `play` are derived here, once, before the proofs that unfold it.
attribute [local simp] play in
/-- A played run is a run. -/
theorem reaches_of_play {inputs : List ι} (h : M.play guard s inputs = some s') :
    M.Reaches guard s s' := by
  induction inputs generalizing s with
  | nil =>
    cases h
    exact .refl
  | cons i rest ih =>
    by_cases hg : guard s i
    · rw [play, if_pos hg] at h
      obtain ⟨t, ht, hrest⟩ := Option.bind_eq_some_iff.mp h
      exact .head ⟨i, hg, ht⟩ (ih hrest)
    · simp [play, hg] at h

lemma play_cons {i : ι} {rest : List ι} (hg : guard s i) (h : M s i = some s') :
    M.play guard s (i :: rest) = M.play guard s' rest := by
  rw [play, if_pos hg, h, Option.bind_some]

/-- A run that meets a condition is a run. -/
lemma play_free {inputs : List ι} (h : M.play guard s inputs = some s') :
    M.play free s inputs = some s' := by
  induction inputs generalizing s with
  | nil => exact h
  | cons i rest ih =>
    rw [play] at h ⊢
    split_ifs at h
    obtain ⟨t, ht, hrest⟩ := Option.bind_eq_some_iff.1 h
    rw [if_pos (show free s i from trivial), ht]
    exact ih hrest

/-- A run may be stopped anywhere. -/
lemma play_append {inputs inputs' : List ι} :
    M.play guard s (inputs ++ inputs') = (M.play guard s inputs).bind fun t =>
      M.play guard t inputs' := by
  induction inputs generalizing s with
  | nil => rfl
  | cons i rest ih =>
    rw [List.cons_append, play, play]
    split_ifs
    · rw [Option.bind_assoc]
      exact congrArg _ (funext fun t => ih)
    · rfl

/-- The run up to an input, the input's step and the rest. -/
lemma play_split (before after : List ι) {i : ι}
    (h : M.play guard s (before ++ i :: after) = some s') :
    ∃ t t', M.play guard s before = some t ∧ guard t i ∧ M t i = some t' ∧
      M.play guard t' after = some s' := by
  rw [play_append] at h
  obtain ⟨t, ht, hrest⟩ := Option.bind_eq_some_iff.1 h
  rw [play] at hrest
  split_ifs at hrest with hg
  obtain ⟨t', ht', hafter⟩ := Option.bind_eq_some_iff.1 hrest
  exact ⟨t, t', ht, hg, ht', hafter⟩

/-- **Invariants of a played run**: what the inputs of the run preserve. -/
lemma play_invariant {I : σ → Prop} {inputs : List ι}
    (h : M.play guard s inputs = some s') (hs : I s)
    (hstep : ∀ s, ∀ i ∈ inputs, ∀ s', I s → guard s i → M s i = some s' → I s') : I s' := by
  induction inputs generalizing s with
  | nil =>
    cases h
    exact hs
  | cons i rest ih =>
    obtain ⟨t, t', ht, hg, ht', hrest⟩ := play_split [] rest h
    cases ht
    exact ih hrest (hstep s i List.mem_cons_self t' hs hg ht') fun s j hj =>
      hstep s j (List.mem_cons_of_mem _ hj)

/-- A played run whose end passes a check. -/
theorem exists_reaches_of_play (inputs : List ι) (check : σ → Bool) {P : σ → Prop}
    (hcheck : ∀ s', check s' = true → P s') (h : (M.play guard s inputs).any check = true) :
    ∃ s', M.Reaches guard s s' ∧ P s' := by
  obtain ⟨s', hs', hc⟩ := (Option.any_eq_true _ _).mp h
  exact ⟨s', reaches_of_play hs', hcheck s' hc⟩

end Machine

end Locast.Lib
