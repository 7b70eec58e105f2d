import Locast.Transfer.MultiSourceSpec

/-!
# The ends of a run

The specifications of what stands before and after the loop, and of the whole run: when it is
complete, the loop was filled and the file is the one of the manifest; when it is not, there is a
cause.
-/

namespace Locast.Transfer

open Locast.Lib

variable {ps : RunParams}

/-! ### Before and after the loop -/

section Ends

open Step

variable {done : List ActRecord} {s : Receiver}

lemma moveTo_spec (target : DownloadState) :
    (moveTo ps target s).Meets ps (fun t done' => t = s ∧ done <+: done') done := by
  refine sat_bind_liftStore fun r done' hpre => ?_
  cases r with
  | error e => exact meets_fail (.storage _ rfl)
  | ok u => exact ⟨trivial, fun _ _ => ⟨rfl, hpre.trans (List.prefix_append _ _)⟩⟩

lemma connect_spec :
    (connect ps s).Meets ps (fun t done' => t = s ∧ done <+: done') done := by
  refine ⟨trivial, fun _ _ => ⟨trivial, fun (r : Except String (Option DownloadState)) _ => ?_⟩⟩
  have hgo : ∀ (current : Option DownloadState) (done' : List ActRecord), done <+: done' →
      (if current ≠ some .transferring ∧ current ≠ some .verifying then
        (moveTo ps .connecting s).andThen (moveTo ps .transferring)
      else next s).Meets ps (fun t done'' => t = s ∧ done <+: done'') done' := by
    intro current done' hpre
    split
    · refine (moveTo_spec .connecting).andThen fun t done₁ ⟨ht, h₁⟩ => ?_
      subst ht
      refine (moveTo_spec .transferring).mono fun r done₂ hr => ?_
      cases r with
      | error e => exact hr
      | ok u => exact ⟨hr.1, (hpre.trans h₁).trans hr.2⟩
    · exact ⟨rfl, hpre⟩
  have hpre : done <+: Automaton.next (watch ps) (Automaton.next (watch ps) done
      (.recordState .pending none) ()) (.store (.selectState ps.plan.downloadId)) r :=
    (List.prefix_append _ _).trans (List.prefix_append _ _)
  cases r with
  | error e => exact hgo none _ hpre
  | ok current => exact hgo current _ hpre

lemma sendHellos_spec {hello : HelloFrame} (l : List SourceHandle) :
    (sendHellos (.hello hello) s l).Meets ps (fun t done' => t = s ∧ done <+: done') done := by
  induction l generalizing done with
  | nil => exact ⟨rfl, List.prefix_rfl⟩
  | cons h rest ih =>
    refine ⟨trivial, fun (out : SendOutcome) _ => ?_⟩
    by_cases hout : out = .sent
    · subst hout
      refine ih.mono fun r done' hr => ?_
      cases r with
      | error e => exact hr
      | ok t => exact ⟨hr.1, (List.prefix_append _ _).trans hr.2⟩
    · have hcause (e : Ending) :
          Cause ps (done ++ [(⟨.send h.peerId (.hello hello) true, out⟩ : ActRecord)]) e :=
        cause_of_sendError _ _ hout
      cases out with
      | sent => exact absurd rfl hout
      | cancelled => exact meets_fail (hcause _)
      | malformed e => exact meets_fail (hcause _)
      | failed e => exact meets_fail (hcause _)

lemma completedIndices_spec :
    (completedIndices s).Meets ps (fun (indices : List ℕ) done' =>
      done' = done ++ [⟨.completedChunkIndices, (.ok indices : Except String (List ℕ))⟩]) done := by
  refine ⟨trivial, fun (r : Except String (List ℕ)) _ => ?_⟩
  cases r with
  | error e => exact meets_fail (.storage _ rfl)
  | ok indices => rfl

/-- The state before the loop: nothing is in flight, and the sources are told apart. -/
structure Receiver.Starts (s : Receiver) : Prop where
  ids : (s.sources.map SourceHandle.peerId).Nodup
  slots : ∀ h ∈ s.sources, h.slots = ∅
  idle : s.inFlight = ∅

lemma Receiver.Starts.inv (hs : s.Starts) (had : List ℕ) (plan : DownloadPlan) :
    ({ s with haveSet := had.toFinset } : Receiver).Inv plan := by
  have hnone : ∀ i record, s.inFlight.get i ≠ some record := fun i record => by
    rw [hs.idle]
    exact fun h => by cases h
  refine ⟨hs.ids, fun h hh i => ?_, fun i r hr => absurd hr (hnone i r),
    fun i r hr => absurd hr (hnone i r), fun i r hr => absurd hr (hnone i r), ?_⟩
  · rw [hs.slots h hh]
    simp [Receiver.inFlightAt, hs.idle, AList.get_empty]
  · dsimp only
    rw [hs.idle]
    exact Nat.zero_le _

lemma prepare_spec (hs : s.Starts) :
    (prepare ps s).Meets ps (fun t done' => ∃ had l, Good ps had t done' ∧
      done' = l ++ [⟨.completedChunkIndices, (.ok had : Except String (List ℕ))⟩]) done := by
  refine connect_spec.andThen fun t done₁ ⟨ht, _⟩ => ?_
  subst ht
  refine completedIndices_spec.andThen fun had done₂ _ => ?_
  refine (sendHellos_spec _).andThen fun t done₃ ⟨ht, _⟩ => ?_
  subst ht
  refine completedIndices_spec.andThen fun had' done₄ hdone => ?_
  subst hdone
  refine ⟨had', done₃, ⟨hs.inv had' ps.plan, ?_, ?_, ?_⟩, rfl⟩
  · exact List.mem_append_right _ (List.mem_singleton_self _)
  · exact fun i hi => List.mem_toFinset.2 hi
  · exact fun i hi => .inl (List.mem_toFinset.1 hi)

end Ends

/-! ### Assembly -/

section Assembly

variable {done done' : List ActRecord} {s : Receiver} {e : Ending}

lemma PartRead.mono {chunk : PlannedChunk} {part : Bytes} (h : PartRead done chunk part)
    (hpre : done <+: done') : PartRead done' chunk part :=
  ⟨h.1, h.2.imp fun _ hmem => hpre.subset hmem⟩

lemma PartsRead.mono {parts : List Bytes} (h : PartsRead ps done parts) (hpre : done <+: done') :
    PartsRead ps done' parts :=
  List.Forall₂.imp (fun _ _ hp => hp.mono hpre) h

lemma Assembled.mono (h : Assembled ps done) (hpre : done <+: done') : Assembled ps done' := by
  obtain ⟨⟨parts, hparts, hlen, hsha⟩, whole, hmem, hwhole⟩ := h
  exact ⟨⟨parts, hparts.mono hpre, hlen, hsha⟩, whole, hpre.subset hmem, hwhole⟩

lemma Mismatch.mono (h : Mismatch ps done) (hpre : done <+: done') : Mismatch ps done' := by
  rcases h with ⟨parts, hparts, hne⟩ | ⟨whole, hmem, hne⟩
  · exact .inl ⟨parts, hparts.mono hpre, hne⟩
  · exact .inr ⟨whole, hpre.subset hmem, hne⟩

lemma Cause.mono (h : Cause ps done e) (hpre : done <+: done') : Cause ps done' e := by
  cases h with
  | cancelled x hx h => exact .cancelled x (hpre.subset hx) h
  | sendFailure x hx h => exact .sendFailure x (hpre.subset hx) h
  | unencodable x hx h => exact .unencodable x (hpre.subset hx) h
  | sourceQuits x hx h => exact .sourceQuits x (hpre.subset hx) h
  | sourcesGone x hx h => exact .sourcesGone x (hpre.subset hx) h
  | spent i h => exact .spent i h
  | refused i h => exact .refused i h
  | storage message h => exact .storage message h
  | disk x hx h => exact .disk x (hpre.subset hx) h
  | mismatch h => exact .mismatch (h.mono hpre)

lemma BegunWith.mono {had : List ℕ} (h : BegunWith had done) (hpre : done <+: done') :
    BegunWith had done' := by
  obtain ⟨l, s, l', rfl⟩ := h
  obtain ⟨l'', rfl⟩ := hpre
  exact ⟨l, s, l' ++ l'', by simp⟩

lemma Filled.mono {had : List ℕ} (h : Filled ps had done s) (hpre : done <+: done') :
    Filled ps had done' s :=
  ⟨h.begun.mono hpre, h.good.mono hpre, h.enough⟩

lemma Completed.mono (h : Completed ps done s) (hpre : done <+: done') : Completed ps done' s :=
  ⟨h.filled.imp fun _ hf => hf.mono hpre, h.assembled.mono hpre⟩

lemma Ended.mono (h : Ended ps done e) (hpre : done <+: done') : Ended ps done' e :=
  ⟨fun hok => (h.complete hok).mono hpre, fun hne => (h.cause hne).mono hpre⟩

/-- The disk refused something, or the file is not the one of the manifest. -/
def Spoiled (ps : RunParams) (done : List ActRecord) : Prop :=
  (∃ x ∈ done, DiskFault ps x) ∨ Mismatch ps done

lemma Spoiled.cause (h : Spoiled ps done) : Cause ps done e := by
  rcases h with ⟨x, hx, h⟩ | h
  · exact .disk x hx h
  · exact .mismatch h

lemma Spoiled.mono (h : Spoiled ps done) (hpre : done <+: done') : Spoiled ps done' := by
  rcases h with ⟨x, hx, h⟩ | h
  · exact .inl ⟨x, hpre.subset hx, h⟩
  · exact .inr (h.mono hpre)

/-- How a part of the assembly ends: with `P`, or spoiled. -/
def Yields {α : Type} (ps : RunParams) (P : α → List ActRecord → Prop) (r : Except AssembleError α)
    (done : List ActRecord) : Prop :=
  match r with
  | .error _ => Spoiled ps done
  | .ok a => P a done

lemma spoiled_concat {x : ActRecord} (h : DiskFault ps x) : Spoiled ps (done ++ [x]) :=
  .inl ⟨x, List.mem_append_right _ (List.mem_singleton_self _), h⟩

lemma concatParts_spec {l : List PlannedChunk} {written : Bytes} (hl : l ⊆ ps.plan.chunks) :
    (concatParts l written).Sat (watch ps) (Yields ps fun all done' =>
      ∃ parts, List.Forall₂ (PartRead done') l parts ∧ all = written ++ parts.flatten) done := by
  induction l generalizing written done with
  | nil => exact ⟨[], .nil, by simp⟩
  | cons chunk rest ih =>
    have hrest : rest ⊆ ps.plan.chunks := fun c hc => hl (List.mem_cons_of_mem _ hc)
    refine ⟨trivial, fun (r : Except AssembleError (String × Bytes)) _ => ?_⟩
    cases r with
    | error e => exact spoiled_concat (.inl ⟨e, rfl⟩)
    | ok out =>
      obtain ⟨path, bytes⟩ := out
      dsimp only
      split
      · rename_i hne
        exact spoiled_concat (.inr ⟨chunk, hl List.mem_cons_self, rfl, path, bytes, rfl, hne⟩)
      · rename_i hlen
        refine (ih hrest).grows.mono fun r done' ⟨hr, hpre⟩ => ?_
        cases r with
        | error e => exact hr
        | ok all =>
          obtain ⟨parts, hparts, rfl⟩ := hr
          have hmem := hpre.subset (List.mem_append_right _ (List.mem_singleton_self _))
          refine ⟨bytes :: parts, .cons ⟨not_not.1 hlen, path, hmem⟩ hparts, ?_⟩
          rw [List.flatten_cons, List.append_assoc]

lemma verifyStaging_spec {parts : List Bytes} (hparts : PartsRead ps done parts) :
    (verifyStaging ps parts.flatten).Sat (watch ps) (Yields ps fun _ => Assembled ps) done := by
  unfold verifyStaging
  split
  · exact .inr (.inl ⟨parts, hparts, .inl ‹_›⟩)
  rename_i hsize
  split
  · exact ⟨trivial, fun _ _ => (Spoiled.mono (.inr (.inl ⟨parts, hparts, .inr ‹_›⟩))
      (List.prefix_append _ _) : Spoiled ps _)⟩
  rename_i hsha
  refine ⟨trivial, fun (r : Except AssembleError Bytes) _ => ?_⟩
  cases r with
  | error e => exact spoiled_concat (.inl ⟨e, rfl⟩)
  | ok whole =>
    have hmem : (⟨.rereadStaging, (.ok whole : Except AssembleError Bytes)⟩ : ActRecord) ∈
        done ++ [(⟨.rereadStaging, (.ok whole : Except AssembleError Bytes)⟩ : ActRecord)] := by
          simp
    dsimp only
    split
    · exact spoiled_concat (.inr ⟨whole, rfl, ‹_›⟩)
    rename_i hlen
    split
    · exact .inr (.inr ⟨whole, hmem, ‹_›⟩)
    rename_i hblake
    have hassembled : Assembled ps _ := ⟨⟨parts, hparts.mono (List.prefix_append _ _),
      not_not.1 hsize, not_not.1 hsha⟩, whole, hmem, not_not.1 hlen, not_not.1 hblake⟩
    refine ⟨trivial, fun (r : Except AssembleError Unit) _ => ?_⟩
    cases r with
    | error e => exact spoiled_concat ⟨e, rfl⟩
    | ok u => exact hassembled.mono (List.prefix_append _ _)

lemma assembleAndFinalize_spec :
    (assembleAndFinalize ps).Sat (watch ps) (Yields ps fun _ => Assembled ps) done := by
  refine ⟨trivial, fun (r : Except AssembleError Unit) _ => ?_⟩
  cases r with
  | error e => exact spoiled_concat ⟨e, rfl⟩
  | ok u =>
    refine Prog.Sat.bind (concatParts_spec (List.Subset.refl _)) fun r done' hr => ?_
    cases r with
    | error e => exact hr
    | ok written =>
      obtain ⟨parts, hparts, rfl⟩ := hr
      refine ⟨trivial, fun (r : Except AssembleError Unit) _ => ?_⟩
      cases r with
      | error e => exact spoiled_concat ⟨e, rfl⟩
      | ok u =>
        rw [List.nil_append]
        exact verifyStaging_spec (PartsRead.mono hparts (List.prefix_append _ _))

end Assembly

/-! ### The whole run -/

section Run

open Step

variable {done : List ActRecord} {s : Receiver}

lemma closeAll_spec {α : Type} {P : α → List ActRecord → Prop} {k : Step α} (l : List SourceHandle)
    (hk : ∀ done', done <+: done' → k.Meets ps P done') : (closeAll k l).Meets ps P done := by
  induction l generalizing done with
  | nil => exact hk done (List.prefix_rfl)
  | cons h rest ih =>
    refine ⟨trivial, fun _ _ => ih fun done' hpre => hk done' ?_⟩
    exact (List.prefix_append _ _).trans hpre

lemma endFailed_spec {P : DownloadState → List ActRecord → Prop} {reason : String}
    {k : Step DownloadState} (hk : ∀ done', done <+: done' → k.Meets ps P done') :
    (endFailed ps reason s k).Meets ps P done := by
  refine sat_bind_liftStore fun r done₁ h₁ => ?_
  cases r with
  | error e => exact meets_fail (.storage _ rfl)
  | ok u =>
    refine ⟨trivial, fun _ _ => closeAll_spec _ fun done₂ h₂ => hk done₂ ?_⟩
    exact h₁.trans ((List.prefix_append _ _).trans h₂)

lemma finish_spec {had : List ℕ} (h : Filled ps had done s) :
    (finish ps s).Meets ps (fun state done' => Ended ps done' ⟨.ok state, s⟩) done := by
  refine (moveTo_spec .verifying).andThen fun t done₁ ⟨ht, h₁⟩ => ?_
  subst ht
  refine Prog.Sat.bind assembleAndFinalize_spec.grows fun r done₂ ⟨hr, h₂⟩ => ?_
  cases r with
  | ok u =>
    have hcompleted : Completed ps done₂ t := ⟨⟨had, h.mono (h₁.trans h₂)⟩, hr⟩
    refine ⟨trivial, fun _ _ => (moveTo_spec .complete).andThen fun u done₃ ⟨hu, h₃⟩ => ?_⟩
    subst hu
    refine closeAll_spec _ fun done₄ h₄ => ⟨fun _ => ?_, fun hne => absurd rfl hne⟩
    refine hcompleted.mono ?_
    exact (List.prefix_append _ _).trans (h₃.trans h₄)
  | error e =>
    have hspoiled : Spoiled ps done₂ := hr
    have hcause : ∀ (done' : List ActRecord) (e : Ending), done₂ <+: done' → Cause ps done' e :=
      fun done' e hpre => (hspoiled.mono hpre).cause
    cases e with
    | blake3Mismatch =>
      refine sat_bind_liftStore fun r done₃ h₃ => ?_
      cases r with
      | error e => exact meets_fail (.storage _ rfl)
      | ok u => exact endFailed_spec fun done₄ h₄ =>
          ⟨fun h => (by cases h), fun _ => hcause _ _ (h₃.trans h₄)⟩
    | _ =>
      exact sat_bind_liftStore fun _ done₃ h₃ => endFailed_spec (P := _) fun done₄ h₄ =>
        meets_fail (hcause _ _ (h₃.trans h₄))

/-- What is known of a run whose fuel was enough. -/
def Concluded (ps : RunParams) : Option Ending → List ActRecord → Prop
  | none, _ => True
  | some e, done => Ended ps done e

/-- What stands before the end of a run. -/
lemma loaded_spec (hl : ps.plan.Layout) (fuel : ℕ) (hs : s.Starts) :
    ((prepare ps s).andThen (loop ps fuel)).Meets ps
      (fun out done' => ∀ t, out = some t → ∃ had, Filled ps had done' t) done := by
  refine (prepare_spec hs).andThen fun t done₁ ⟨had, l, hg, hdone⟩ => ?_
  refine (loop_spec_begun hl fuel hdone hg).mono fun r done₂ hr => ?_
  cases r with
  | error e => exact hr
  | ok out => exact fun u hu => ⟨had, hr u hu⟩

lemma runMultiSourceInner_spec (hl : ps.plan.Layout) (fuel : ℕ) (hs : s.Starts) :
    (runMultiSourceInner ps fuel s).Sat (watch ps) (Concluded ps) done := by
  refine Prog.Sat.bind (loaded_spec hl fuel hs) fun r done₂ hr => ?_
  cases r with
  | error e => exact hr
  | ok out =>
    cases out with
    | none => trivial
    | some t =>
      obtain ⟨had, hfilled⟩ := hr t rfl
      refine Prog.Sat.bind (finish_spec hfilled) fun r done₃ hr => ?_
      cases r with
      | error e => exact hr
      | ok state => exact hr

lemma recordTerminalStateAfterError_spec {e : MultiSourceError} :
    (recordTerminalStateAfterError ps e).Sat (watch ps) (fun _ _ => True) done := by
  refine ⟨trivial, fun (r : Except String (Option DownloadState)) _ => ?_⟩
  cases r
  all_goals
    dsimp only
    split
    · trivial
    · split
      · exact sat_bind_liftStore fun _ _ _ => ⟨trivial, fun _ _ => trivial⟩
      · exact sat_bind_liftStore fun _ _ _ => sat_bind_liftStore fun _ _ _ =>
          ⟨trivial, fun _ _ => trivial⟩

lemma discardScratchAfterTerminalFailure_spec :
    (discardScratchAfterTerminalFailure ps).Sat (watch ps) (fun _ _ => True) done := by
  refine ⟨trivial, fun (r : Except String (Option DownloadState)) _ => ?_⟩
  cases r with
  | error e => trivial
  | ok state =>
    dsimp only
    split
    · exact ⟨trivial, fun _ _ => trivial⟩
    · trivial

/-- **The specification of a run.** -/
theorem runMultiSource_spec (hl : ps.plan.Layout) (fuel : ℕ) (hs : s.Starts) :
    (runMultiSource ps fuel s).Sat (watch ps) (Concluded ps) done := by
  refine Prog.Sat.bind (runMultiSourceInner_spec hl fuel hs) fun r done₁ hr => ?_
  cases r with
  | none => trivial
  | some ending =>
    have hended : Ended ps done₁ ending := hr
    refine Prog.Sat.bind (Prog.Sat.grows (Q := fun _ _ => True) ?_) fun _ done₂ h₂ => ?_
    · split
      · exact recordTerminalStateAfterError_spec
      · trivial
    refine Prog.Sat.bind discardScratchAfterTerminalFailure_spec.grows fun _ done₃ h₃ => ?_
    exact hended.mono (h₂.2.trans h₃.2)

end Run

end Locast.Transfer
