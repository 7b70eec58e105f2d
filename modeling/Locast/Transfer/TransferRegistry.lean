import Locast.Lib.AssocMap
import Locast.Lib.Machine

/-!
# The transfer registry (`transfer/registry.rs`)

A transfer owns its download id from its registration until its guard drops.  Registration, adoption
and removal are steps under one lock; a cancel reads tokens under the lock and cancels them after it
has let go of it.
-/

namespace Locast.Transfer.Registry

open Locast.Lib

variable {ι : Type}

/-! ### The operations -/

structure Entry where
  token : ℕ
  generation : ℕ
  /-- false while the token is the placeholder of the registration -/
  adopted : Bool
  deriving DecidableEq

structure RegisterGuard (ι : Type) where
  downloadId : ι
  generation : ℕ
  deriving DecidableEq

/-- Outcome of `try_register`. -/
inductive Claim (ι : Type) where
  | claimed (guard : RegisterGuard ι)
  | running
  | busy
  deriving DecidableEq

structure RegistryInner (ι : Type) where
  tokens : AMap ι Entry
  nextGeneration : ℕ

section

variable [DecidableEq ι]

/-- `insert`, and the guard of the new entry. -/
def RegistryInner.insert (r : RegistryInner ι) (id : ι) (token : ℕ) (adopted : Bool) :
    RegisterGuard ι × RegistryInner ι :=
  (⟨id, r.nextGeneration + 1⟩,
    ⟨r.tokens.insert id ⟨token, r.nextGeneration + 1, adopted⟩, r.nextGeneration + 1⟩)

/-- `try_register`; an entry that exists is left as it is. -/
def tryRegister (cancelled : List ℕ) (r : RegistryInner ι) (id : ι) (token : ℕ) :
    Claim ι × RegistryInner ι :=
  match r.tokens.get id with
  | some e => (if e.adopted ∧ e.token ∉ cancelled then .running else .busy, r)
  | none => (.claimed (r.insert id token false).1, (r.insert id token false).2)

/-- `RegisterGuard::adopt_token`: the answer, the registry and the cancelled tokens. -/
def adoptToken (cancelled : List ℕ) (r : RegistryInner ι) (g : RegisterGuard ι) (token : ℕ) :
    Bool × RegistryInner ι × List ℕ :=
  match r.tokens.get g.downloadId with
  | some e =>
    if e.generation = g.generation ∧ e.token ∉ cancelled then
      (true, { r with tokens := r.tokens.insert g.downloadId ⟨token, e.generation, true⟩ },
        cancelled)
    else (false, r, token :: cancelled)
  | none => (false, r, token :: cancelled)

/-- Dropping a guard removes the entry that it made, and no other. -/
def dropGuard (r : RegistryInner ι) (g : RegisterGuard ι) : RegistryInner ι :=
  if (r.tokens.get g.downloadId).any fun e => e.generation = g.generation then
    { r with tokens := r.tokens.erase g.downloadId }
  else r

/-- What `cancel` reads under the lock. -/
def readToken (r : RegistryInner ι) (id : ι) : List ℕ :=
  ((r.tokens.get id).map Entry.token).toList

end

/-! ### Tasks -/

/-- The registry, the tokens that are cancelled, the live guards, and for every call of `cancel` and
of `cancel_all` the tokens that it has read and not cancelled yet. -/
structure Tasks (ι : Type) where
  registry : RegistryInner ι
  cancelled : List ℕ
  guards : List (RegisterGuard ι)
  calls : List (List ℕ)

/-- The step of some task. -/
inductive Event (ι : Type) where
  | tryRegister (id : ι) (token : ℕ)
  | adopt (guard : RegisterGuard ι) (token : ℕ)
  | dropGuard (guard : RegisterGuard ι)
  | cancel (id : ι)
  /-- the map is read in any order -/
  | cancelAll (order : List ℕ)
  /-- a call cancels the next token that it has read -/
  | cancelNext (call : ℕ)
  deriving DecidableEq

def start : Tasks ι := ⟨⟨∅, 0⟩, [], [], []⟩

variable [DecidableEq ι]

/-- What a step does; a guard is used by the task that has it, while it lives. -/
def step : Machine (Tasks ι) (Event ι)
  | s, .tryRegister id token =>
    match tryRegister s.cancelled s.registry id token with
    | (.claimed g, r) => some { s with registry := r, guards := g :: s.guards }
    | (_, r) => some { s with registry := r }
  | s, .adopt g token =>
    if g ∈ s.guards then
      some { s with
        registry := (adoptToken s.cancelled s.registry g token).2.1
        cancelled := (adoptToken s.cancelled s.registry g token).2.2 }
    else none
  | s, .dropGuard g =>
    if g ∈ s.guards then
      some { s with registry := dropGuard s.registry g, guards := s.guards.erase g }
    else none
  | s, .cancel id => some { s with calls := s.calls ++ [readToken s.registry id] }
  | s, .cancelAll order =>
    if order.Perm (s.registry.tokens.vals.map Entry.token) then
      some { s with calls := s.calls ++ [order] }
    else none
  | s, .cancelNext call =>
    match s.calls[call]? with
    | some (token :: rest) =>
      some { s with cancelled := token :: s.cancelled, calls := s.calls.set call rest }
    | _ => none

/-- **No adoption overtakes a cancel**: a guard does not adopt a token while a call holds the one
that it replaces and has not cancelled it. -/
def Unraced (s : Tasks ι) : Event ι → Prop
  | .adopt g _ => ∀ e ∈ s.registry.tokens.get g.downloadId,
    e.token ∈ s.cancelled ∨ ∀ held ∈ s.calls, e.token ∉ held
  | _ => True

instance (s : Tasks ι) : (ev : Event ι) → Decidable (Unraced s ev)
  | .adopt g _ => inferInstanceAs (Decidable (∀ e ∈ s.registry.tokens.get g.downloadId,
      e.token ∈ s.cancelled ∨ ∀ held ∈ s.calls, e.token ∉ held))
  | .tryRegister _ _ => isTrue trivial
  | .dropGuard _ => isTrue trivial
  | .cancel _ => isTrue trivial
  | .cancelAll _ => isTrue trivial
  | .cancelNext _ => isTrue trivial

/-! ### Guards and entries -/

/-- **Guards and entries correspond.** -/
structure Inv (s : Tasks ι) : Prop where
  owned : ∀ g ∈ s.guards, ∃ e, s.registry.tokens.get g.downloadId = some e ∧
    e.generation = g.generation
  owner : ∀ id e, s.registry.tokens.get id = some e → ⟨id, e.generation⟩ ∈ s.guards
  nodup : s.guards.Nodup
  bound : ∀ g ∈ s.guards, g.generation ≤ s.registry.nextGeneration

lemma inv_start : Inv (start : Tasks ι) := by
  refine ⟨fun g hg => absurd hg List.not_mem_nil, fun id e h => ?_, List.nodup_nil,
    fun g hg => absurd hg List.not_mem_nil⟩
  rw [start, AList.get_empty] at h
  cases h

lemma Inv.alone {s : Tasks ι} (h : Inv s) {g g' : RegisterGuard ι} (hg : g ∈ s.guards)
    (hg' : g' ∈ s.guards) (hid : g.downloadId = g'.downloadId) : g = g' := by
  obtain ⟨e, he, hgen⟩ := h.owned g hg
  obtain ⟨e', he', hgen'⟩ := h.owned g' hg'
  rw [hid, he', Option.some.injEq] at he
  have hgens : g.generation = g'.generation := by rw [← hgen, ← hgen', he]
  obtain ⟨id, gen⟩ := g
  cases hid
  cases hgens
  rfl

/-- What an adoption leaves of the entries. -/
lemma get_adoptToken (cancelled : List ℕ) (r : RegistryInner ι) (g : RegisterGuard ι)
    (token : ℕ) (id : ι) :
    (adoptToken cancelled r g token).2.1.tokens.get id = r.tokens.get id ∨
      ∃ e, r.tokens.get g.downloadId = some e ∧ e.generation = g.generation ∧ e.token ∉ cancelled ∧
        id = g.downloadId ∧ (adoptToken cancelled r g token).1 = true ∧
        (adoptToken cancelled r g token).2.1.tokens.get id = some ⟨token, g.generation, true⟩ := by
  unfold adoptToken
  split
  · rename_i e he
    split_ifs with hcond
    · by_cases hid : id = g.downloadId
      · subst hid
        refine .inr ⟨e, he, hcond.1, hcond.2, rfl, rfl, ?_⟩
        rw [AList.get_insert_self, hcond.1]
      · left
        rw [AList.get_insert, if_neg hid]
    · exact .inl rfl
  · exact .inl rfl

@[simp] lemma nextGeneration_adoptToken (cancelled : List ℕ) (r : RegistryInner ι)
    (g : RegisterGuard ι) (token : ℕ) : (adoptToken cancelled r g token).2.1.nextGeneration =
    r.nextGeneration := by
  unfold adoptToken
  split
  · split_ifs <;> rfl
  · rfl

@[simp] lemma nextGeneration_dropGuard (r : RegistryInner ι) (g : RegisterGuard ι) :
    (dropGuard r g).nextGeneration = r.nextGeneration := by
  unfold dropGuard
  split_ifs <;> rfl

/-- An adoption that fails cancels the token, one that succeeds cancels nothing. -/
lemma cancelled_adoptToken (cancelled : List ℕ) (r : RegistryInner ι) (g : RegisterGuard ι)
    (token : ℕ) :
    (adoptToken cancelled r g token).2.2 =
      if (adoptToken cancelled r g token).1 then cancelled else token :: cancelled := by
  unfold adoptToken
  split
  · split_ifs <;> simp_all
  · rfl

/-- What a drop leaves of the entries: all but its own. -/
lemma get_dropGuard (r : RegistryInner ι) (g : RegisterGuard ι) (id : ι) :
    (dropGuard r g).tokens.get id =
      if id = g.downloadId ∧ (r.tokens.get id).any (fun e => e.generation = g.generation) then none
      else r.tokens.get id := by
  unfold dropGuard
  by_cases hgen : (r.tokens.get g.downloadId).any (fun e => e.generation = g.generation) = true
  · rw [if_pos hgen, AList.get_erase]
    by_cases hid : id = g.downloadId
    · subst hid
      rw [if_pos rfl, if_pos ⟨rfl, hgen⟩]
    · rw [if_neg hid, if_neg fun h => hid h.1]
  · rw [if_neg hgen, if_neg]
    rintro ⟨rfl, h⟩
    exact hgen h

/-- A registration, when the id was free. -/
lemma tryRegister_of_none {cancelled : List ℕ} {r : RegistryInner ι} {id : ι}
    (h : r.tokens.get id = none) (token : ℕ) : tryRegister cancelled r id token =
      (.claimed ⟨id, r.nextGeneration + 1⟩,
        ⟨r.tokens.insert id ⟨token, r.nextGeneration + 1, false⟩, r.nextGeneration + 1⟩) := by
  rw [tryRegister, h]
  rfl

/-- One that exists is left as it is. -/
lemma tryRegister_of_some {cancelled : List ℕ} {r : RegistryInner ι} {id : ι} {e : Entry}
    (h : r.tokens.get id = some e) (token : ℕ) : tryRegister cancelled r id token =
      (if e.adopted ∧ e.token ∉ cancelled then .running else .busy, r) := by
  rw [tryRegister, h]

/-- What one step can do. -/
lemma step_cases {s s' : Tasks ι} {ev : Event ι} (h : step s ev = some s') :
    (∃ id token, ev = .tryRegister id token ∧ s.registry.tokens.get id = none ∧
      s' = { s with
        registry := ⟨s.registry.tokens.insert id ⟨token, s.registry.nextGeneration + 1, false⟩,
          s.registry.nextGeneration + 1⟩
        guards := ⟨id, s.registry.nextGeneration + 1⟩ :: s.guards }) ∨
    (∃ id token e, ev = .tryRegister id token ∧ s.registry.tokens.get id = some e ∧ s' = s) ∨
    (∃ g token, ev = .adopt g token ∧ g ∈ s.guards ∧ s' = { s with
      registry := (adoptToken s.cancelled s.registry g token).2.1
      cancelled := (adoptToken s.cancelled s.registry g token).2.2 }) ∨
    (∃ g, ev = .dropGuard g ∧ g ∈ s.guards ∧
      s' = { s with registry := dropGuard s.registry g, guards := s.guards.erase g }) ∨
    (∃ read, s' = { s with calls := s.calls ++ [read] } ∧ (ev = .cancelAll read ∧
      read.Perm (s.registry.tokens.vals.map Entry.token) ∨
      ∃ id, ev = .cancel id ∧ read = readToken s.registry id)) ∨
    ∃ call token rest, ev = .cancelNext call ∧ s.calls[call]? = some (token :: rest) ∧
      s' = { s with cancelled := token :: s.cancelled, calls := s.calls.set call rest } := by
  cases ev with
  | tryRegister id token =>
    cases hget : s.registry.tokens.get id with
    | none =>
      rw [step, tryRegister_of_none hget] at h
      exact .inl ⟨id, token, rfl, hget, (Option.some.inj h).symm⟩
    | some e =>
      rw [step, tryRegister_of_some hget] at h
      refine .inr (.inl ⟨id, token, e, rfl, hget, ?_⟩)
      split_ifs at h <;> exact (Option.some.inj h).symm
  | adopt g token =>
    rw [step] at h
    split_ifs at h with hg
    exact .inr (.inr (.inl ⟨g, token, rfl, hg, (Option.some.inj h).symm⟩))
  | dropGuard g =>
    rw [step] at h
    split_ifs at h with hg
    exact .inr (.inr (.inr (.inl ⟨g, rfl, hg, (Option.some.inj h).symm⟩)))
  | cancel id =>
    exact .inr (.inr (.inr (.inr (.inl ⟨_, (Option.some.inj h).symm, .inr ⟨id, rfl, rfl⟩⟩))))
  | cancelAll order =>
    rw [step] at h
    split_ifs at h with hperm
    exact .inr (.inr (.inr (.inr (.inl ⟨order, (Option.some.inj h).symm, .inl ⟨rfl, hperm⟩⟩))))
  | cancelNext call =>
    rw [step] at h
    split at h
    · rename_i token rest hcall
      exact .inr
        (.inr (.inr (.inr (.inr ⟨call, token, rest, rfl, hcall, (Option.some.inj h).symm⟩))))
    · cases h

/-- **Guards and entries correspond after every step.** -/
lemma inv_step {s s' : Tasks ι} {ev : Event ι} (hs : Inv s) (h : step s ev = some s') : Inv s' := by
  obtain ⟨id, token, -, hfree, rfl⟩ | ⟨id, token, e, -, -, rfl⟩ | ⟨g, token, -, hg, rfl⟩ | ⟨g,
    -, hg, rfl⟩ |
    ⟨read, rfl, -⟩ | ⟨call, token, rest, -, -, rfl⟩ := step_cases h
  · refine ⟨fun g hg => ?_, fun id' e he => ?_, ?_, fun g hg => ?_⟩
    · rcases List.mem_cons.1 hg with rfl | hg
      · exact ⟨_, AList.get_insert_self _ _ _, rfl⟩
      · obtain ⟨e, he, hgen⟩ := hs.owned g hg
        refine ⟨e, ?_, hgen⟩
        rw [AList.get_insert, if_neg, he]
        rintro rfl
        rw [he] at hfree
        cases hfree
    · dsimp only at he
      rw [AList.get_insert] at he
      split_ifs at he with hid
      · cases he
        rw [hid]
        exact List.mem_cons_self
      · exact List.mem_cons_of_mem _ (hs.owner id' e he)
    · refine List.nodup_cons.2 ⟨fun hmem => ?_, hs.nodup⟩
      have := hs.bound _ hmem
      dsimp only at this
      omega
    · rcases List.mem_cons.1 hg with rfl | hg
      · exact le_rfl
      · exact (hs.bound g hg).trans (Nat.le_succ _)
  · exact hs
  · refine ⟨fun g' hg' => ?_, fun id e he => ?_, hs.nodup, fun g' hg' => ?_⟩
    · obtain ⟨e, he, hgen⟩ := hs.owned g' hg'
      rcases get_adoptToken s.cancelled s.registry g token g'.downloadId with
        hsame | ⟨e', he', hgen', -, hid, -, hnew⟩
      · exact ⟨e, hsame.trans he, hgen⟩
      · refine ⟨_, hnew, ?_⟩
        rw [← hs.alone hg' hg hid]
    · rcases get_adoptToken s.cancelled s.registry g token id with
        hsame | ⟨e', he', hgen', -, rfl, -, hnew⟩
      · exact hs.owner id e (hsame.symm.trans he)
      · cases hnew.symm.trans he
        exact hg
    · rw [nextGeneration_adoptToken]
      exact hs.bound g' hg'
  · refine ⟨fun g' hg' => ?_, fun id e he => ?_, hs.nodup.erase g, fun g' hg' => ?_⟩
    · obtain ⟨hne, hg'⟩ := hs.nodup.mem_erase_iff.1 hg'
      obtain ⟨e, he, hgen⟩ := hs.owned g' hg'
      refine ⟨e, ?_, hgen⟩
      dsimp only
      rw [get_dropGuard, if_neg, he]
      exact fun hid => hne (hs.alone hg' hg hid.1)
    · dsimp only at he
      rw [get_dropGuard] at he
      split_ifs at he with hown
      refine hs.nodup.mem_erase_iff.2 ⟨fun heq => hown ⟨congrArg RegisterGuard.downloadId heq, ?_⟩,
        hs.owner id e he⟩
      rw [he, Option.any_some]
      exact decide_eq_true (congrArg RegisterGuard.generation heq)
    · rw [nextGeneration_dropGuard]
      exact hs.bound g' (List.mem_of_mem_erase hg')
  · exact ⟨hs.owned, hs.owner, hs.nodup, hs.bound⟩
  · exact ⟨hs.owned, hs.owner, hs.nodup, hs.bound⟩

lemma inv_play {guard : Tasks ι → Event ι → Prop} [∀ s ev, Decidable (guard s ev)] {s s' : Tasks ι}
    {events : List (Event ι)} (h : step.play guard s events = some s') (hs : Inv s) : Inv s' :=
  Machine.play_invariant h hs fun _ _ _ _ hs _ h => inv_step hs h

/-! ### What a call of `cancel` does in the end -/

/-- Generations only grow. -/
lemma nextGeneration_step {s s' : Tasks ι} {ev : Event ι} (h : step s ev = some s') :
    s.registry.nextGeneration ≤ s'.registry.nextGeneration := by
  obtain ⟨id, token, -, -, rfl⟩ | ⟨id, token, e, -, -, rfl⟩ | ⟨g, token, -, -, rfl⟩ | ⟨g,
    -, -, rfl⟩ |
    ⟨read, rfl, -⟩ | ⟨call, token, rest, -, -, rfl⟩ := step_cases h
  · exact Nat.le_succ _
  · exact le_rfl
  · rw [nextGeneration_adoptToken]
  · rw [nextGeneration_dropGuard]
  · exact le_rfl
  · exact le_rfl

/-- Cancelled tokens stay cancelled. -/
lemma cancelled_step {s s' : Tasks ι} {ev : Event ι} (h : step s ev = some s') :
    s.cancelled ⊆ s'.cancelled := by
  obtain ⟨id, token, -, -, rfl⟩ | ⟨id, token, e, -, -, rfl⟩ | ⟨g, token, -, -, rfl⟩ | ⟨g,
    -, -, rfl⟩ |
    ⟨read, rfl, -⟩ | ⟨call, token, rest, -, -, rfl⟩ := step_cases h
  · exact List.Subset.refl _
  · exact List.Subset.refl _
  · rw [cancelled_adoptToken]
    split_ifs
    · exact List.Subset.refl _
    · exact List.subset_cons_self _ _
  · exact List.Subset.refl _
  · exact List.Subset.refl _
  · exact List.subset_cons_self _ _

/-- **An entry changes only by its own guard's adoption.** -/
lemma get_step {s s' : Tasks ι} {ev : Event ι} (h : step s ev = some s') {g : RegisterGuard ι}
    (hgen : g.generation ≤ s.registry.nextGeneration) {e : Entry}
    (he : s'.registry.tokens.get g.downloadId = some e) (heg : e.generation = g.generation) :
    s.registry.tokens.get g.downloadId = some e ∨ ∃ token, ev = .adopt g token ∧
      (adoptToken s.cancelled s.registry g token).1 = true ∧ e = ⟨token, g.generation, true⟩ := by
  obtain ⟨id, token, -, -, rfl⟩ | ⟨id, token, e, -, -, rfl⟩ | ⟨g', token, rfl, -, rfl⟩ | ⟨g',
    -, -, rfl⟩ |
    ⟨read, rfl, -⟩ | ⟨call, token, rest, -, -, rfl⟩ := step_cases h
  · dsimp only at he
    rw [AList.get_insert] at he
    split_ifs at he
    · cases he
      dsimp only at heg
      omega
    · exact .inl he
  · exact .inl he
  · rcases get_adoptToken s.cancelled s.registry g' token g.downloadId with
      hsame | ⟨e', he', hgen', -, hid, hok, hnew⟩
    · exact .inl (hsame.symm.trans he)
    · cases hnew.symm.trans he
      obtain ⟨id, gen⟩ := g
      cases hid
      cases heg
      exact .inr ⟨token, rfl, hok, rfl⟩
  · dsimp only at he
    rw [get_dropGuard] at he
    split_ifs at he
    exact .inl he
  · exact .inl he
  · exact .inl he

/-- A token that a call holds stays with it until it is cancelled. -/
lemma calls_step {s s' : Tasks ι} {ev : Event ι} (h : step s ev = some s') {call token : ℕ}
    {held : List ℕ} (hcall : s.calls[call]? = some held)
    (htoken : token ∈ held ∨ token ∈ s.cancelled) :
    ∃ held', s'.calls[call]? = some held' ∧ (token ∈ held' ∨ token ∈ s'.cancelled) := by
  have hkeep : s'.calls = s.calls → ∃ held', s'.calls[call]? = some held' ∧
      (token ∈ held' ∨ token ∈ s'.cancelled) := fun hsame =>
    ⟨held, hsame ▸ hcall, htoken.imp_right fun hmem => cancelled_step h hmem⟩
  obtain ⟨id, token', -, -, rfl⟩ | ⟨id, token', e, -, -, rfl⟩ | ⟨g, token', -, -, rfl⟩ | ⟨g,
    -, -, rfl⟩ |
    ⟨read, rfl, -⟩ | ⟨call', token', rest, -, hcall', rfl⟩ := step_cases h
  · exact hkeep rfl
  · exact hkeep rfl
  · exact hkeep rfl
  · exact hkeep rfl
  · exact ⟨held, List.getElem?_append_left (List.getElem?_eq_some_iff.1 hcall).1 ▸ hcall, htoken⟩
  · by_cases heq : call' = call
    · subst heq
      cases hcall.symm.trans hcall'
      refine ⟨rest, ?_, ?_⟩
      · exact List.getElem?_set_self (List.getElem?_eq_some_iff.1 hcall).1
      · rcases htoken with hmem | hmem
        · rcases List.mem_cons.1 hmem with rfl | hmem
          · exact .inr List.mem_cons_self
          · exact .inl hmem
        · exact .inr (List.mem_cons_of_mem _ hmem)
    · exact ⟨held, (List.getElem?_set_ne heq).trans hcall,
        htoken.imp_right (List.mem_cons_of_mem _)⟩

lemma exists_of_adoptToken {cancelled : List ℕ} {r : RegistryInner ι}
    {g : RegisterGuard ι} {token : ℕ} (h : (adoptToken cancelled r g token).1 = true) :
    ∃ e, r.tokens.get g.downloadId = some e ∧ e.generation = g.generation ∧
      e.token ∉ cancelled := by
  unfold adoptToken at h
  split at h
  · rename_i e he
    split_ifs at h with hcond
    exact ⟨e, he, hcond⟩
  · cases h

lemma get_of_adoptToken {cancelled : List ℕ} {r : RegistryInner ι} {g : RegisterGuard ι} {token : ℕ}
    (h : (adoptToken cancelled r g token).1 = true) :
    (adoptToken cancelled r g token).2.1.tokens.get g.downloadId =
      some ⟨token, g.generation, true⟩ := by
  obtain ⟨e, he, hgen, hfree⟩ := exists_of_adoptToken h
  rw [adoptToken, he]
  dsimp only
  rw [if_pos ⟨hgen, hfree⟩, AList.get_insert_self, hgen]

/-- **A call has read a guard's token**: it holds it or has cancelled it, and the guard has no
other. -/
structure Told (call token : ℕ) (g : RegisterGuard ι) (s : Tasks ι) : Prop where
  bound : g.generation ≤ s.registry.nextGeneration
  entry : ∀ e, s.registry.tokens.get g.downloadId = some e → e.generation = g.generation →
    e.token = token
  call : ∃ held, s.calls[call]? = some held ∧ (token ∈ held ∨ token ∈ s.cancelled)

variable {call token : ℕ} {g : RegisterGuard ι} {s s' : Tasks ι} {ev : Event ι}

/-- Such a guard adopts nothing. -/
lemma Told.adoptToken_eq (h : Told call token g s) {t : ℕ} (hev : Unraced s (.adopt g t)) :
    (adoptToken s.cancelled s.registry g t).1 = false := by
  rw [← Bool.not_eq_true]
  intro hok
  obtain ⟨e, he, hgen, hfree⟩ := exists_of_adoptToken hok
  obtain ⟨held, hcall, htoken⟩ := h.call
  have hsame := h.entry e he hgen
  rcases hev e he with hmem | hmem
  · exact hfree hmem
  · rw [hsame] at hfree hmem
    exact hmem held (List.mem_of_getElem? hcall) (htoken.resolve_right hfree)

lemma Told.after_step (h : Told call token g s) (hev : Unraced s ev) (hstep : step s ev = some s') :
    Told call token g s' ∧ ∀ t, ev = .adopt g t → t ∈ s'.cancelled := by
  refine ⟨⟨h.bound.trans (nextGeneration_step hstep), fun e he hgen => ?_, ?_⟩, ?_⟩
  · rcases get_step hstep h.bound he hgen with hold | ⟨t, rfl, hok, -⟩
    · exact h.entry e hold hgen
    · rw [h.adoptToken_eq hev] at hok
      cases hok
  · obtain ⟨held, hcall, htoken⟩ := h.call
    exact calls_step hstep hcall htoken
  · rintro t rfl
    obtain ⟨id, t', ⟨⟩, -⟩ | ⟨id, t', e, ⟨⟩, -⟩ | ⟨g', t', hev', -, rfl⟩ | ⟨g', ⟨⟩, -⟩ |
      ⟨read, -, ⟨⟨⟩, -⟩ | ⟨id, ⟨⟩, -⟩⟩ | ⟨call', t', rest, ⟨⟩, -⟩ := step_cases hstep
    cases hev'
    rw [cancelled_adoptToken, h.adoptToken_eq hev]
    exact List.mem_cons_self

/-- **What a guard is given after a call has read its token is cancelled.** -/
lemma Told.after_run (h : Told call token g s) {events : List (Event ι)}
    (hplay : step.play Unraced s events = some s') :
    Told call token g s' ∧ ∀ t, .adopt g t ∈ events → t ∈ s'.cancelled := by
  induction events generalizing s with
  | nil =>
    cases hplay
    exact ⟨h, fun t ht => absurd ht List.not_mem_nil⟩
  | cons ev rest ih =>
    obtain ⟨t₀, t₁, ht₀, hev, hstep, hrest⟩ := Machine.play_split [] _ hplay
    cases ht₀
    obtain ⟨hnext, hgiven⟩ := h.after_step hev hstep
    obtain ⟨hlast, hlater⟩ := ih hnext hrest
    refine ⟨hlast, fun t ht => ?_⟩
    rcases List.mem_cons.1 ht with rfl | ht
    · exact Machine.play_invariant (I := fun u => t ∈ u.cancelled) hrest (hgiven t rfl)
        fun _ _ _ _ hmem _ hu => cancelled_step hu hmem
    · exact hlater t ht

/-- The call is of `cancel` for this id, or of `cancel_all`. -/
def Event.Covers : Event ι → ι → Prop
  | .cancel id, id' => id = id'
  | .cancelAll _, _ => True
  | _, _ => False

/-- **A call reads the token of every guard that it covers.** -/
lemma told_of_covers (hs : Inv s) (hg : g ∈ s.guards) (hev : ev.Covers g.downloadId)
    (h : step s ev = some s') :
    ∃ e, s.registry.tokens.get g.downloadId = some e ∧ e.generation = g.generation ∧
      Told s.calls.length e.token g s' := by
  obtain ⟨e, he, hgen⟩ := hs.owned g hg
  have hentry : ∀ e', s.registry.tokens.get g.downloadId = some e' → e'.token = e.token :=
    fun e' he' => by
    rw [he] at he'
    rw [Option.some.inj he']
  obtain ⟨id, t, rfl, -⟩ | ⟨id, t, e', rfl, -⟩ | ⟨g', t, rfl, -⟩ | ⟨g', rfl, -⟩ |
    ⟨read, rfl, hread⟩ | ⟨call', t, rest, rfl, -⟩ := step_cases h
  · exact hev.elim
  · exact hev.elim
  · exact hev.elim
  · exact hev.elim
  · refine ⟨e, he, hgen, hs.bound g hg, fun e' he' _ => hentry e' he', read,
      List.getElem?_concat_length, .inl ?_⟩
    rcases hread with ⟨rfl, hperm⟩ | ⟨id, rfl, rfl⟩
    · exact hperm.mem_iff.2 (List.mem_map.2 ⟨e, AList.mem_vals.2 ⟨_, he⟩, rfl⟩)
    · obtain rfl : id = g.downloadId := hev
      rw [readToken, he]
      exact List.mem_singleton_self _
  · exact hev.elim

variable (token) in
/-- An adopted token stays its guard's, as long as the guard adopts no other. -/
lemma adopted_kept {guard : Tasks ι → Event ι → Prop} [∀ s ev, Decidable (guard s ev)]
    {events : List (Event ι)} (hplay : step.play guard s events = some s')
    (hbound : g.generation ≤ s.registry.nextGeneration)
    (hentry : ∀ e, s.registry.tokens.get g.downloadId = some e → e.generation = g.generation →
      e.token = token)
    (hnone : ∀ t, .adopt g t ∉ events) :
    ∀ e, s'.registry.tokens.get g.downloadId = some e → e.generation = g.generation →
      e.token = token := by
  have h : g.generation ≤ s'.registry.nextGeneration ∧ ∀ e,
      s'.registry.tokens.get g.downloadId = some e → e.generation = g.generation →
        e.token = token := by
    refine Machine.play_invariant (I := fun u : Tasks ι =>
      g.generation ≤ u.registry.nextGeneration ∧ ∀ e, u.registry.tokens.get g.downloadId = some e →
      e.generation = g.generation → e.token = token)
      hplay ⟨hbound, hentry⟩ ?_
    rintro u ev hev u' ⟨hle, htoken⟩ - hu
    refine ⟨hle.trans (nextGeneration_step hu), fun e he hgen => ?_⟩
    rcases get_step hu hle he hgen with hold | ⟨t, rfl, -⟩
    · exact htoken e hold hgen
    · exact absurd hev (hnone t)
  exact h.2

/-! ### Mutual exclusion -/

/-- **One owner at a time.**  No two live guards have one id; an id is free exactly when no live
guard has it; a new guard is newer than every live one; and a drop removes its own entry, so that
the id is free, and no other entry. -/
structure Exclusive (s : Tasks ι) : Prop where
  alone : ∀ g ∈ s.guards, ∀ g' ∈ s.guards, g.downloadId = g'.downloadId → g = g'
  nodup : s.guards.Nodup
  free : ∀ id token, (∃ g, (tryRegister s.cancelled s.registry id token).1 = .claimed g) ↔
    ∀ g ∈ s.guards, g.downloadId ≠ id
  newer : ∀ id token g, (tryRegister s.cancelled s.registry id token).1 = .claimed g →
    ∀ g' ∈ s.guards, g'.generation < g.generation
  released : ∀ g ∈ s.guards, ∀ token,
    ∃ g', (tryRegister s.cancelled (dropGuard s.registry g) g.downloadId token).1 = .claimed g'
  others : ∀ (g : RegisterGuard ι) id e, s.registry.tokens.get id = some e →
    (⟨id, e.generation⟩ : RegisterGuard ι) ≠ g → (dropGuard s.registry g).tokens.get id = some e

lemma claimed_iff {cancelled : List ℕ} {r : RegistryInner ι} {id : ι} {token : ℕ} :
    (∃ g, (tryRegister cancelled r id token).1 = .claimed g) ↔ r.tokens.get id = none := by
  cases hget : r.tokens.get id with
  | none =>
    rw [tryRegister_of_none hget]
    exact ⟨fun _ => rfl, fun _ => ⟨_, rfl⟩⟩
  | some e =>
    rw [tryRegister_of_some hget]
    refine ⟨?_, by rintro ⟨⟩⟩
    rintro ⟨g, hg⟩
    dsimp only at hg
    split_ifs at hg

lemma Inv.get_eq_none (hs : Inv s) {id : ι} :
    s.registry.tokens.get id = none ↔ ∀ g ∈ s.guards, g.downloadId ≠ id := by
  constructor
  · rintro hnone g hg rfl
    obtain ⟨e, he, -⟩ := hs.owned g hg
    rw [hnone] at he
    cases he
  · intro hfree
    cases hget : s.registry.tokens.get id with
    | none => rfl
    | some e => exact absurd rfl (hfree _ (hs.owner id e hget))

lemma exclusive_of_inv (hs : Inv s) : Exclusive s := by
  refine ⟨fun g hg g' hg' => hs.alone hg hg', hs.nodup, fun id token =>
    claimed_iff.trans hs.get_eq_none, fun id token g hclaim g' hg' => ?_, fun g hg token =>
      claimed_iff.2 ?_, fun g id e he hne => ?_⟩
  · rw [tryRegister_of_none (claimed_iff.1 ⟨g, hclaim⟩)] at hclaim
    cases hclaim
    exact Nat.lt_succ_of_le (hs.bound g' hg')
  · obtain ⟨e, he, hgen⟩ := hs.owned g hg
    rw [get_dropGuard, if_pos ⟨rfl, by rw [he, Option.any_some, hgen, decide_eq_true rfl]⟩]
  · rw [get_dropGuard, if_neg, he]
    rintro ⟨rfl, hown⟩
    rw [he, Option.any_some] at hown
    exact hne (by rw [of_decide_eq_true hown])

/-- **No cancel is lost.**  When a call that covers a guard's id has cancelled all that it read,
every token that the guard was given since is cancelled and it adopts no other; and the token that
it had adopted before is cancelled. -/
structure CancelsKept (events : List (Event ι)) (s : Tasks ι) : Prop where
  between : ∀ before ev after s₀ g, events = before ++ ev :: after →
    step.play Machine.free start before = some s₀ → g ∈ s₀.guards → ev.Covers g.downloadId →
    s.calls[s₀.calls.length]? = some [] →
    (∀ token, .adopt g token ∈ after → token ∈ s.cancelled) ∧
      ∀ token, (adoptToken s.cancelled s.registry g token).1 = false
  adopted : ∀ before g token mid ev after s₀ s₁,
    events = before ++ .adopt g token :: (mid ++ ev :: after) →
    step.play Machine.free start before = some s₀ →
    (adoptToken s₀.cancelled s₀.registry g token).1 = true → (∀ t, .adopt g t ∉ mid) →
    step.play Machine.free start (before ++ .adopt g token :: mid) = some s₁ → g ∈ s₁.guards →
    ev.Covers g.downloadId → s.calls[s₁.calls.length]? = some [] → token ∈ s.cancelled

/-- A call that has cancelled all that it read has cancelled the token. -/
lemma Told.cancelled (h : Told call token g s) (hdone : s.calls[call]? = some []) :
    token ∈ s.cancelled := by
  obtain ⟨held, hcall, htoken⟩ := h.call
  rw [hdone] at hcall
  obtain rfl := Option.some.inj hcall
  exact htoken.resolve_left List.not_mem_nil

/-- The part of an unraced run up to a call and after it. -/
lemma told_of_run {before after : List (Event ι)} {s₀ : Tasks ι}
    (hrun : step.play Unraced start (before ++ ev :: after) = some s)
    (hbefore : step.play Machine.free start before = some s₀) (hg : g ∈ s₀.guards)
    (hev : ev.Covers g.downloadId) :
    ∃ e, s₀.registry.tokens.get g.downloadId = some e ∧ e.generation = g.generation ∧
      Told s₀.calls.length e.token g s ∧ ∀ t, .adopt g t ∈ after → t ∈ s.cancelled := by
  obtain ⟨t₀, t₁, ht₀, -, hstep, hafter⟩ := Machine.play_split _ _ hrun
  obtain rfl : t₀ = s₀ := Option.some.inj ((Machine.play_free ht₀).symm.trans hbefore)
  obtain ⟨e, he, hgen, htold⟩ := told_of_covers (inv_play ht₀ inv_start) hg hev hstep
  obtain ⟨hlast, hgiven⟩ := htold.after_run hafter
  exact ⟨e, he, hgen, hlast, hgiven⟩

lemma cancelsKept_of_play {events : List (Event ι)}
    (hrun : step.play Unraced start events = some s) :
    CancelsKept events s := by
  constructor
  · rintro before ev after s₀ g rfl hbefore hg hev hdone
    obtain ⟨e, he, hgen, htold, hgiven⟩ := told_of_run hrun hbefore hg hev
    refine ⟨hgiven, fun t => ?_⟩
    rw [← Bool.not_eq_true]
    intro hok
    obtain ⟨e', he', hgen', hfree⟩ := exists_of_adoptToken hok
    rw [htold.entry e' he' hgen'] at hfree
    exact hfree (htold.cancelled hdone)
  · rintro before g token mid ev after s₀ s₁ rfl hbefore hok hmid hread hg hev hdone
    rw [← List.cons_append, ← List.append_assoc] at hrun
    obtain ⟨e, he, hgen, htold, -⟩ := told_of_run hrun hread hg hev
    obtain ⟨t₀, t₁, ht₀, -, hstep, hafter⟩ := Machine.play_split _ _ hread
    obtain rfl : t₀ = s₀ := Option.some.inj (ht₀.symm.trans hbefore)
    have hmine : g ∈ t₀.guards ∧ t₁.registry =
        (adoptToken t₀.cancelled t₀.registry g token).2.1 := by
      rw [step] at hstep
      split_ifs at hstep with hmem
      obtain rfl := Option.some.inj hstep
      exact ⟨hmem, rfl⟩
    have hbound : g.generation ≤ t₁.registry.nextGeneration :=
      ((inv_play ht₀ inv_start).bound g hmine.1).trans (nextGeneration_step hstep)
    have hentry := adopted_kept token hafter hbound (fun e' he' _ => by
      rw [hmine.2, get_of_adoptToken hok] at he'
      rw [← Option.some.inj he']) hmid
    rw [← hentry e he hgen]
    exact htold.cancelled hdone

/-- **The registry over every run**: one owner at a time, and no cancel is lost if no adoption
overtakes one. -/
theorem registry_runs {events : List (Event ι)}
    (hrun : step.play Machine.free start events = some s) :
    Exclusive s ∧ (step.play Unraced start events = some s → CancelsKept events s) :=
  ⟨exclusive_of_inv (inv_play hrun inv_start), cancelsKept_of_play⟩

/-! ### An adoption between the two halves of a cancel -/

/-- The run: a cancel reads the placeholder, the transfer adopts its token, and the placeholder is
cancelled. -/
def racedEvents : List (Event Bool) :=
  [.tryRegister true 0, .cancel true, .adopt ⟨true, 1⟩ 7, .cancelNext 0]

/-- **A cancel is lost**: it has returned and the transfer runs on with a token that nothing
cancelled. -/
theorem not_registry_runs : ∃ s, step.play Machine.free start racedEvents = some s ∧
    (⟨true, 1⟩ : RegisterGuard Bool) ∈ s.guards ∧ 7 ∉ s.cancelled ∧
    s.registry.tokens.get true = some ⟨7, 1, true⟩ ∧ ¬CancelsKept racedEvents s := by
  obtain ⟨s, hs⟩ : ∃ s, s = (step.play Machine.free start racedEvents).getD start := ⟨_, rfl⟩
  obtain ⟨s₀, hs₀⟩ : ∃ s₀, s₀ = (step.play Machine.free start [.tryRegister true 0]).getD
      (start : Tasks Bool) :=
    ⟨_, rfl⟩
  have hfree : 7 ∉ s.cancelled := by
    rw [hs]
    decide
  refine ⟨s, ?_, ?_, hfree, ?_, fun h => hfree ((h.between [.tryRegister true 0] (.cancel true)
    [.adopt ⟨true, 1⟩ 7, .cancelNext 0] s₀ ⟨true, 1⟩ rfl ?_ ?_ rfl ?_).1 7 List.mem_cons_self)⟩
  · rw [hs]
    rfl
  · rw [hs]
    decide
  · rw [hs]
    decide
  · rw [hs₀]
    rfl
  · rw [hs₀]
    decide
  · rw [hs, hs₀]
    decide

theorem registry_runs_cancelled : ∃ s, step.play Unraced start
    ([.tryRegister true 0, .cancel true, .cancelNext 0, .adopt ⟨true, 1⟩ 7] : List (Event Bool)) =
      some s ∧ Exclusive s ∧ CancelsKept [.tryRegister true 0, .cancel true, .cancelNext 0,
        .adopt ⟨true, 1⟩ 7] s := by
  have hrun : step.play Unraced start ([.tryRegister true 0, .cancel true, .cancelNext 0,
      .adopt ⟨true, 1⟩ 7] : List (Event Bool)) = some (_ : Tasks Bool) := rfl
  exact ⟨_, hrun, (registry_runs (Machine.play_free hrun)).1,
    (registry_runs (Machine.play_free hrun)).2 hrun⟩

end Locast.Transfer.Registry
