import Locast.Lib.Pool

/-!
# Programs that run alone

`Solo` is the execution of one program with nothing else moving, under any inputs of the
environment, and `Ends` says what holds however it ends.
-/

namespace Locast.Lib

namespace System

variable {E : Type} {R : E → Type} {Op α σ ι β γ : Type} (S : System E R Op α σ ι)

/-- **The program runs alone** from `s` and ends; the list is what it did. -/
inductive Solo (op : Op) : Prog E R β → σ → List (Did R Op σ ι) → β → σ → Prop
  | ret (b : β) (s : σ) : Solo op (.ret b) s [] b s
  | step {e : E} {k : R e → Prog E R β} {s s' s'' : σ} {h : List (Did R Op σ ι)} {b : β} (inp : ι)
      (r : R e) (hd : S.handle e inp s = some (r, s')) (rest : Solo op (k r) s' h b s'') :
      Solo op (.op e k) s (⟨op, e, inp, r, s, s'⟩ :: h) b s''

/-- However the program runs alone from `s`, it ends in `Q`. -/
def Ends (op : Op) (Q : List (Did R Op σ ι) → β → σ → Prop) (p : Prog E R β) (s : σ) : Prop :=
  ∀ h b s', S.Solo op p s h b s' → Q h b s'

/-- Runs a program alone on a list of inputs. -/
def perform (op : Op) : Prog E R β → σ → List ι → Option (List (Did R Op σ ι) × β × σ)
  | .ret b, s, _ => some ([], b, s)
  | .op _ _, _, [] => none
  | .op e k, s, inp :: inps =>
    match S.handle e inp s with
    | none => none
    | some (r, s') => (perform op (k r) s' inps).map fun out =>
      (⟨op, e, inp, r, s, s'⟩ :: out.1, out.2)

variable {S} {op : Op} {s s' : σ} {h : List (Did R Op σ ι)}

lemma solo_of_perform {p : Prog E R β} {inps : List ι} {b : β}
    (hp : S.perform op p s inps = some (h, b, s')) : S.Solo op p s h b s' := by
  induction p generalizing s h inps with
  | ret a =>
    cases hp
    exact .ret _ _
  | op e k ih =>
    cases inps with
    | nil => cases hp
    | cons inp inps =>
      simp only [perform] at hp
      split at hp
      · cases hp
      · rename_i r s₁ hd
        obtain ⟨⟨h', out⟩, hout, hp⟩ := Option.map_eq_some_iff.1 hp
        cases hp
        exact .step inp r hd (ih r hout)

/-- An execution can be computed: it ends, and its end passes `ok`. -/
theorem exists_solo_of_perform {p : Prog E R β} (inps : List ι)
    (ok : List (Did R Op σ ι) × β × σ → Bool) (hp : (S.perform op p s inps).any ok = true) :
    ∃ h b s', S.Solo op p s h b s' ∧ ok (h, b, s') = true := by
  obtain ⟨⟨h, b, s'⟩, hout, hok⟩ := (Option.any_eq_true _ _).1 hp
  exact ⟨h, b, s', solo_of_perform hout, hok⟩

/-! ### Rules -/

variable {Q Q' : List (Did R Op σ ι) → β → σ → Prop}

lemma ends_ret {b : β} : S.Ends op Q (.ret b) s ↔ Q [] b s := by
  constructor
  · exact fun h => h _ _ _ (.ret b s)
  · intro h _ _ _ hsolo
    cases hsolo
    exact h

lemma ends_op {e : E} {k : R e → Prog E R β} : S.Ends op Q (.op e k) s ↔
    ∀ inp r s', S.handle e inp s = some (r, s') →
      S.Ends op (fun h b s'' => Q (⟨op, e, inp, r, s, s'⟩ :: h) b s'') (k r) s' := by
  constructor
  · exact fun h inp r s' hd _ _ _ hsolo => h _ _ _ (.step inp r hd hsolo)
  · intro h _ _ _ hsolo
    cases hsolo with
    | step inp r hd rest => exact h inp r _ hd _ _ _ rest

lemma Ends.mono {p : Prog E R β} (h : S.Ends op Q p s) (hq : ∀ h b s', Q h b s' → Q' h b s') :
    S.Ends op Q' p s := fun _ _ _ hsolo => hq _ _ _ (h _ _ _ hsolo)

/-- **The sequencing rule.** -/
theorem Ends.bind {m : Prog E R β} {f : β → Prog E R γ}
    {Q' : List (Did R Op σ ι) → γ → σ → Prop} (h : S.Ends op Q m s)
    (hf : ∀ h b s', Q h b s' → S.Ends op (fun h' c s'' => Q' (h ++ h') c s'') (f b) s') :
    S.Ends op Q' (m >>= f) s := by
  induction m generalizing s Q Q' with
  | ret b => exact (hf [] b s (ends_ret.1 h)).mono fun _ _ _ hq => hq
  | op e k ih =>
    refine ends_op.2 fun inp r s' hd => ?_
    exact ih r (ends_op.1 h inp r s' hd) fun h' b s'' hq => hf _ b s'' hq

/-- **The rule for footprints**: what every allowed effect keeps is kept. -/
theorem ends_only {expects : (e : E) → R e → Prop} {ok : E → Prop} {P : β → Prop} {I : σ → Prop}
    {p : Prog E R β} (hp : p.Sat (.only expects ok) (fun b _ => P b) ())
    (hexpect : ∀ d, S.Handled d → expects d.effect d.resp)
    (hkeep : ∀ d : Did R Op σ ι, S.Handled d → ok d.effect → I d.before → I d.after) (hs : I s) :
    S.Ends op (fun h b s' => P b ∧ I s' ∧ ∀ d ∈ h, ok d.effect) p s := by
  induction p generalizing s with
  | ret b => exact ends_ret.2 ⟨hp, hs, fun d hd => absurd hd List.not_mem_nil⟩
  | op e k ih =>
    refine ends_op.2 fun inp r s' hd => ?_
    have hsat : (k r).Sat (.only expects ok) (fun b _ => P b) () :=
      hp.2 r (hexpect ⟨op, e, inp, r, s, s'⟩ hd)
    have hs' : I s' := hkeep ⟨op, e, inp, r, s, s'⟩ hd hp.1 hs
    refine (ih r hsat hs').mono fun h b s'' hq => ⟨hq.1, hq.2.1, fun d hmem => ?_⟩
    rcases List.mem_cons.1 hmem with rfl | hmem
    · exact hp.1
    · exact hq.2.2 d hmem

end System

end Locast.Lib
