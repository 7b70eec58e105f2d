import Locast.Lib.Prog

/-!
# Pools of programs over one shared state

Any number of programs run at once over a state `σ`.  A move starts a new operation or lets one
program perform its next effect; the environment's part of an effect (a clock, a random choice, a
failure) is an input `ι` of the move.  Everything a run did is kept as a list of `Did` records.

`Run.invariant` is the induction over runs, packaged once: an invariant that relates the history,
the state and what an automaton remembers of each program.
-/

namespace Locast.Lib

/-- A family of operations: the program of each, and what an effect does to the state.  An effect
that cannot happen in a state under an input has no result. -/
structure System (E : Type) (R : E → Type) (Op α σ ι : Type) where
  program : Op → Prog E R α
  handle : (e : E) → ι → σ → Option (R e × σ)

variable {E : Type} {R : E → Type} {Op α σ ι G : Type}

/-- An operation in progress: what is left of its program and what it has done. -/
structure Task (R : E → Type) (Op α : Type) where
  op : Op
  rest : Prog E R α
  done : List ((e : E) × R e)

/-- The result of a program that has ended. -/
def Task.result (t : Task R Op α) : Option α :=
  match t.rest with
  | .ret a => some a
  | .op _ _ => none

structure Pool (R : E → Type) (Op α σ : Type) where
  state : σ
  tasks : List (Task R Op α)

/-- No operation is in progress. -/
def Pool.quiet (p : Pool R Op α σ) : Prop := ∀ t ∈ p.tasks, t.result.isSome

/-- One effect as it happened. -/
structure Did (R : E → Type) (Op σ ι : Type) where
  op : Op
  effect : E
  inp : ι
  resp : R effect
  before : σ
  after : σ

/-- A move of the scheduler. -/
inductive Move (Op ι : Type)
  | spawn (op : Op)
  | advance (i : ℕ) (inp : ι)

namespace System

variable (S : System E R Op α σ ι)

/-- A new operation. -/
def spawned (op : Op) : Task R Op α where
  op := op
  rest := S.program op
  done := []

/-- The `i`-th operation performs its next effect. -/
def advance (p : Pool R Op α σ) (i : ℕ) (inp : ι) : Option (Did R Op σ ι × Pool R Op α σ) :=
  match p.tasks[i]? with
  | none => none
  | some ⟨_, .ret _, _⟩ => none
  | some ⟨op, .op e k, done⟩ => (S.handle e inp p.state).map fun out =>
    (⟨op, e, inp, out.1, p.state, out.2⟩,
      ⟨out.2, p.tasks.set i ⟨op, k out.1, done ++ [⟨e, out.1⟩]⟩⟩)

/-- **Runs** from `s₀` whose effects all meet `guard`, with what they did. -/
inductive Run (guard : List (Did R Op σ ι) → Did R Op σ ι → Prop) (s₀ : σ) :
    List (Did R Op σ ι) → Pool R Op α σ → Prop
  | start : Run guard s₀ [] ⟨s₀, []⟩
  | spawn {h p} (op : Op) (r : Run guard s₀ h p) :
      Run guard s₀ h ⟨p.state, p.tasks ++ [S.spawned op]⟩
  | advance {h p d p'} (i : ℕ) (inp : ι) (r : Run guard s₀ h p)
      (hd : S.advance p i inp = some (d, p')) (hg : guard h d) : Run guard s₀ (h ++ [d]) p'

/-- Plays a list of moves. -/
def play (h : List (Did R Op σ ι)) (p : Pool R Op α σ) :
    List (Move Op ι) → Option (List (Did R Op σ ι) × Pool R Op α σ)
  | [] => some (h, p)
  | .spawn op :: ms => play h ⟨p.state, p.tasks ++ [S.spawned op]⟩ ms
  | .advance i inp :: ms =>
    match S.advance p i inp with
    | none => none
    | some (d, p') => play (h ++ [d]) p' ms

/-- The effect happened as `handle` says. -/
def Handled (d : Did R Op σ ι) : Prop :=
  S.handle d.effect d.inp d.before = some (d.resp, d.after)

variable {S} {guard : List (Did R Op σ ι) → Did R Op σ ι → Prop} {s₀ : σ}

/-- Everything a move of one program does: the inversion lemma of `advance`. -/
lemma advance_spec {p p' : Pool R Op α σ} {i : ℕ} {inp : ι} {d : Did R Op σ ι}
    (hd : S.advance p i inp = some (d, p')) :
    ∃ k done, p.tasks[i]? = some ⟨d.op, .op d.effect k, done⟩ ∧ d.before = p.state ∧
      S.Handled d ∧
      p' = ⟨d.after, p.tasks.set i ⟨d.op, k d.resp, done ++ [⟨d.effect, d.resp⟩]⟩⟩ := by
  unfold advance at hd
  split at hd
  · cases hd
  · cases hd
  · rename_i op e k done ht
    obtain ⟨out, ho, hd⟩ := Option.map_eq_some_iff.1 hd
    obtain ⟨rfl, rfl⟩ := Prod.mk.inj hd
    exact ⟨k, done, ht, rfl, ho, rfl⟩

lemma history_of_play {ms : List (Move Op ι)} {h h' : List (Did R Op σ ι)} {p p' : Pool R Op α σ}
    (hp : S.play h p ms = some (h', p')) : ∃ l, h' = h ++ l := by
  induction ms generalizing h p with
  | nil => exact ⟨[], by simpa using (Prod.mk.inj (Option.some.inj hp)).1.symm⟩
  | cons m ms ih =>
    cases m with
    | spawn op => exact ih hp
    | advance i inp =>
      simp only [play] at hp
      split at hp
      · cases hp
      · obtain ⟨l, hl⟩ := ih hp
        exact ⟨_, by rw [hl, List.append_assoc]⟩

/-- A played list of moves is a run, when every prefix of its history meets the guard. -/
theorem run_of_play {ms : List (Move Op ι)} {h h' : List (Did R Op σ ι)} {p p' : Pool R Op α σ}
    (r : S.Run guard s₀ h p) (hp : S.play h p ms = some (h', p'))
    (hg : ∀ i (hi : i < h'.length), h.length ≤ i → guard (h'.take i) h'[i]) :
    S.Run guard s₀ h' p' := by
  induction ms generalizing h p with
  | nil =>
    obtain ⟨rfl, rfl⟩ := Prod.mk.inj (Option.some.inj hp)
    exact r
  | cons m ms ih =>
    cases m with
    | spawn op => exact ih (.spawn op r) hp hg
    | advance i inp =>
      simp only [play] at hp
      split at hp
      · cases hp
      · rename_i d p₁ hd
        obtain ⟨l, hl⟩ := history_of_play hp
        have hlen : h.length < h'.length := by simp [hl]
        have hh : guard h d := by simpa [hl] using hg h.length hlen (Nat.le_refl _)
        refine ih (.advance i inp r hd hh) hp fun j hj hle => hg j hj ?_
        exact Nat.le_of_succ_le (by simpa using hle)

/-- A run can be computed: a list of moves is played, each step passes a check that implies the
guard, and the end passes `ok`. -/
theorem exists_run_of_play (moves : List (Move Op ι))
    (check : List (Did R Op σ ι) → Did R Op σ ι → Bool)
    (ok : List (Did R Op σ ι) × Pool R Op α σ → Bool)
    (hcheck : ∀ h d, check h d = true → guard h d)
    (hp : (S.play [] ⟨s₀, []⟩ moves).any (fun out => ok out &&
      (List.range out.1.length).all fun i => (out.1[i]?).all (check (out.1.take i))) = true) :
    ∃ h p, S.Run guard s₀ h p ∧ ok (h, p) = true := by
  obtain ⟨⟨h, p⟩, hout, hok⟩ := (Option.any_eq_true _ _).1 hp
  simp only [Bool.and_eq_true, List.all_eq_true, List.mem_range] at hok
  refine ⟨h, p, run_of_play .start hout fun i hi _ => hcheck _ _ ?_, hok.1⟩
  have hi' := hok.2 i hi
  rwa [List.getElem?_eq_getElem hi] at hi'

/-! ### Invariants of runs -/

/-- What the automaton remembers of a task. -/
def Task.ghost (A : Automaton E R G) (g₀ : Op → G) (t : Task R Op α) : G := A.after (g₀ t.op) t.done

/-- **The invariant rule.**  `I` relates the history, the state and the automaton's memory of every
task.  It holds at the start, a new task keeps it, the answers it allows are expected, and an effect
the automaton allows keeps it.  Then it holds in every run, and what is left of every task is still
within the logic. -/
theorem Run.invariant (A : Automaton E R G) (g₀ : Op → G) (Q : α → G → Prop)
    (I : List (Did R Op σ ι) → σ → List G → Prop)
    (hprog : ∀ op, (S.program op).Sat A Q (g₀ op))
    (hstart : I [] s₀ [])
    (hspawn : ∀ h s gs op, I h s gs → I h s (gs ++ [g₀ op]))
    (hexpect : ∀ h gs d, I h d.before gs → S.Handled d → A.expects d.effect d.resp)
    (hstep : ∀ h gs (i : ℕ) g d, I h d.before gs → gs[i]? = some g → A.allows g d.effect →
      S.Handled d → guard h d → I (h ++ [d]) d.after (gs.set i (A.next g d.effect d.resp)))
    {h : List (Did R Op σ ι)} {p : Pool R Op α σ} (r : S.Run guard s₀ h p) :
    I h p.state (p.tasks.map (Task.ghost A g₀)) ∧
      ∀ t ∈ p.tasks, t.rest.Sat A Q (Task.ghost A g₀ t) := by
  induction r with
  | start => exact ⟨hstart, fun t ht => absurd ht List.not_mem_nil⟩
  | spawn op r ih =>
    refine ⟨?_, fun t ht => ?_⟩
    · rw [List.map_append]
      exact hspawn _ _ _ op ih.1
    · rcases List.mem_append.1 ht with ht | ht
      · exact ih.2 t ht
      · rw [List.mem_singleton.1 ht]
        exact hprog op
  | advance i inp r hd hg ih =>
    obtain ⟨k, done, ht, hb, hh, rfl⟩ := advance_spec hd
    have hs := ih.2 _ (List.mem_of_getElem? ht)
    have hi := hb ▸ ih.1
    refine ⟨?_, fun t ht' => ?_⟩
    · rw [List.map_set]
      refine (congrArg (I _ _) ?_).mp (hstep _ _ i _ _ hi ?_ hs.1 hh hg)
      · simp [Task.ghost]
      · simp [ht, Task.ghost]
    · rcases List.mem_or_eq_of_mem_set ht' with ht' | rfl
      · exact ih.2 t ht'
      · simpa [Task.ghost] using hs.2 _ (hexpect _ _ _ hi hh)

/-- The end of a task satisfies the postcondition of its program. -/
lemma sat_of_result {A : Automaton E R G} {Q : α → G → Prop} {g : G} {t : Task R Op α} {a : α}
    (ht : t.rest.Sat A Q g) (ha : t.result = some a) : Q a g := by
  obtain ⟨op, rest, done⟩ := t
  cases rest with
  | ret b =>
    cases ha
    exact ht
  | op e k => cases ha

/-- **The rule for single tasks**, when each answer of the system is expected: the automaton has
allowed everything a task did, and what is left of it is within the logic. -/
theorem Run.tasks (A : Automaton E R G) (g₀ : Op → G) (Q : Op → α → G → Prop)
    (hprog : ∀ op, (S.program op).Sat A (Q op) (g₀ op))
    (hexpect : ∀ d, S.Handled d → A.expects d.effect d.resp)
    {h : List (Did R Op σ ι)} {p : Pool R Op α σ} (r : S.Run guard s₀ h p) :
    ∀ t ∈ p.tasks, A.Admits (g₀ t.op) t.done ∧ t.rest.Sat A (Q t.op) (Task.ghost A g₀ t) := by
  induction r with
  | start => exact fun t ht => absurd ht List.not_mem_nil
  | spawn op r ih =>
    intro t ht
    rcases List.mem_append.1 ht with ht | ht
    · exact ih t ht
    · rw [List.mem_singleton.1 ht]
      exact ⟨trivial, hprog op⟩
  | advance i inp r hd hg ih =>
    obtain ⟨k, done, ht, -, hh, rfl⟩ := advance_spec hd
    obtain ⟨ha, hs⟩ := ih _ (List.mem_of_getElem? ht)
    intro t ht'
    rcases List.mem_or_eq_of_mem_set ht' with ht' | rfl
    · exact ih t ht'
    · refine ⟨Automaton.admits_append.2 ⟨ha, hs.1, hexpect _ hh⟩, ?_⟩
      simpa [Task.ghost] using hs.2 _ (hexpect _ hh)

/-- Every effect of a run is in the footprint of its operation's program. -/
theorem Run.footprint {expects : (e : E) → R e → Prop} {ok : Op → E → Prop}
    (hprog : ∀ op, (S.program op).Sat (.only expects (ok op)) (fun _ _ => True) ())
    (hexpect : ∀ d, S.Handled d → expects d.effect d.resp)
    {h : List (Did R Op σ ι)} {p : Pool R Op α σ} (r : S.Run guard s₀ h p) :
    (∀ d ∈ h, ok d.op d.effect) ∧
      ∀ t ∈ p.tasks, t.rest.Sat (.only expects (ok t.op)) (fun _ _ => True) () := by
  induction r with
  | start => exact ⟨fun d hd => absurd hd List.not_mem_nil, fun t ht => absurd ht List.not_mem_nil⟩
  | spawn op r ih =>
    refine ⟨ih.1, fun t ht => ?_⟩
    rcases List.mem_append.1 ht with ht | ht
    · exact ih.2 t ht
    · rw [List.mem_singleton.1 ht]
      exact hprog op
  | advance i inp r hd hg ih =>
    obtain ⟨k, done, ht, -, hh, rfl⟩ := advance_spec hd
    have hs := ih.2 _ (List.mem_of_getElem? ht)
    refine ⟨fun d' hd' => ?_, fun t ht' => ?_⟩
    · rcases List.mem_append.1 hd' with hd' | hd'
      · exact ih.1 d' hd'
      · rw [List.mem_singleton.1 hd']
        exact hs.1
    · rcases List.mem_or_eq_of_mem_set ht' with ht' | rfl
      · exact ih.2 t ht'
      · exact hs.2 _ (hexpect _ hh)

/-- A run whose steps all have a property is a run guarded by it. -/
theorem Run.guarded {P : Did R Op σ ι → Prop} {h : List (Did R Op σ ι)} {p : Pool R Op α σ}
    (r : S.Run guard s₀ h p) (hP : ∀ d ∈ h, P d) : S.Run (fun _ d => P d) s₀ h p := by
  induction r with
  | start => exact .start
  | spawn op r ih => exact .spawn op (ih hP)
  | advance i inp r hd hg ih =>
    exact .advance i inp (ih fun d hd => hP d (List.mem_append_left _ hd)) hd
      (hP _ (List.mem_append_right _ (List.mem_singleton_self _)))

/-- **The rule for an invariant of the history and the state alone.**  What other rules say of the
runs before and after the step may be used. -/
theorem Run.history_invariant (I : List (Did R Op σ ι) → σ → Prop) (hstart : I [] s₀)
    (hstep : ∀ h p d p', S.Run guard s₀ h p → S.Run guard s₀ (h ++ [d]) p' → d.before = p.state →
      d.after = p'.state → S.Handled d → I h d.before → I (h ++ [d]) d.after)
    {h : List (Did R Op σ ι)} {p : Pool R Op α σ} (r : S.Run guard s₀ h p) : I h p.state := by
  induction r with
  | start => exact hstart
  | spawn op r ih => exact ih
  | advance i inp r hd hg ih =>
    have r' := r.advance i inp hd hg
    obtain ⟨k, done, -, hb, hh, rfl⟩ := advance_spec hd
    exact hstep _ _ _ _ r r' hb rfl hh (hb ▸ ih)

/-- Every effect of a run happened at the end of a run, and met the guard there. -/
theorem Run.before {h : List (Did R Op σ ι)} {p : Pool R Op α σ} (r : S.Run guard s₀ h p) :
    ∀ d ∈ h, S.Handled d ∧ ∃ h' p', S.Run guard s₀ h' p' ∧ p'.state = d.before ∧ guard h' d := by
  induction r with
  | start => exact fun d hd => absurd hd List.not_mem_nil
  | spawn op r ih => exact ih
  | @advance h p d p' i inp r hd hg ih =>
    obtain ⟨k, done, -, hb, hh, rfl⟩ := advance_spec hd
    intro d' hd'
    rcases List.mem_append.1 hd' with hd' | hd'
    · exact ih d' hd'
    · rw [List.mem_singleton.1 hd']
      exact ⟨hh, h, p, r, hb.symm, hg⟩

end System

end Locast.Lib
