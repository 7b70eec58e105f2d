import Locast.Transfer.RunInvariant

/-!
# What one source can do to a run

A run that does not complete has a cause.  The causes that are no source's doing are the `Excused`
ones; a source that fails at a send whose outcome is looked at, or that says it quits, ends the run
for all of them.
-/

namespace Locast.Transfer

open Locast.Lib

variable {ps : RunParams} {tr : List ActRecord} {e : Ending}

/-! ### Causes that no source has alone -/

/-- **The run may end so**: it was cancelled here, the store or the disk failed, a chunk spent its
budget or was refused by every source, or every source is gone. -/
inductive Excused (ps : RunParams) (tr : List ActRecord) (e : Ending) : Prop
  | cancelled (x : ActRecord) (hx : x ∈ tr) (h : LocalCancel x)
  | storage (message : String) (h : e.outcome = .error (.storage message))
  | disk (x : ActRecord) (hx : x ∈ tr) (h : DiskFault ps x)
  | spent (i : ℕ) (h : maxChunkRetries ≤ e.receiver.retriesOf i)
  | refused (i : ℕ) (h : e.receiver.refusedByAll i = true)
  | sourcesGone (x : ActRecord) (hx : x ∈ tr) (h : SourcesGone x)

/-- No source fails at a `Hello` or at the request of a dispatch, and none says it quits. -/
def SourceHolds (x : ActRecord) : Prop := ¬SendFailure x ∧ ¬Unencodable x ∧ ¬SourceQuits x

lemma Cause.excused (h : Cause ps tr e) (hholds : ∀ x ∈ tr, SourceHolds x)
    (hfile : ¬Mismatch ps tr) : Excused ps tr e := by
  cases h with
  | cancelled x hx h => exact .cancelled x hx h
  | sendFailure x hx h => exact absurd h (hholds x hx).1
  | unencodable x hx h => exact absurd h (hholds x hx).2.1
  | sourceQuits x hx h => exact absurd h (hholds x hx).2.2
  | sourcesGone x hx h => exact .sourcesGone x hx h
  | spent i h => exact .spent i h
  | refused i h => exact .refused i h
  | storage message h => exact .storage message h
  | disk x hx h => exact .disk x hx h
  | mismatch h => exact absurd h hfile

/-- **While no source fails where it is looked at**, and the file is the one of the manifest, the
run ends incomplete only if it is excused. -/
theorem failures_isolated {downloadId mediaId : String} {manifestVersion : ℤ}
    {entry : Protocol.MediaEntry} {peerId : String} {peers : List (String × ℤ)} {s₀ : Receiver}
    {fuel : ℕ} (hplan : planDownload downloadId mediaId manifestVersion entry peerId = .ok ps.plan)
    (hnew : Receiver.new (freshSources peers) = .ok s₀)
    (hrun : (runMultiSource ps fuel s₀).Does tr (.ret (some e)))
    (hholds : ∀ x ∈ tr, SourceHolds x)
    (hfile : ¬Mismatch ps tr) (hincomplete : e.outcome ≠ .ok .complete) : Excused ps tr e := by
  have hl := layout_of_planDownload hplan
  have hspec : (runMultiSource ps fuel s₀).Sat (watch ps) (Concluded ps) [] :=
    runMultiSource_spec hl fuel (starts_of_new hnew)
  have hended : Ended ps tr e := (hspec.does hrun fun _ _ => trivial).1
  exact (hended.cause hincomplete).excused hholds hfile

/-! ### Runs of two sources -/

namespace OneChunk

def secondId : String := .ofList (List.replicate 64 'c')

/-- Two sources of the chunk. -/
def peers : List (String × ℤ) := [(hostId, 0), (secondId, 1)]

lemma started_two : Receiver.new (freshSources peers) = .ok (start peers) := by
  have hne : ¬secondId = hostId := by decide
  simp [Receiver.new, freshSources, duplicateId, start, peers, SourceHandle.fresh, hne]

/-- The run comes no further than its sends, and these end as `ok` says. -/
def early (ok : SendOutcome → Bool) : (a : Act) → a.Resp → Bool
  | .send _ _ _, (out : SendOutcome) => ok out
  | .tryAcquireSlot _ _ _, (granted : Bool) => granted
  | .await _, _ | .writePart _ _, _ | .createStaging, _ | .readPart _, _ | .syncStaging, _
  | .rereadStaging, _ | .completeDownload, _ => false
  | .store _, _ | .completedChunkIndices, _ | .recordState _ _, _ | .now, _ | .stuckOrder _, _
  | .head _, _ | .removeStaging, _ | .cleanupIncomplete, _ | .close _, _ => true

/-- The second source does what is asked of it. -/
def secondServes : (a : Act) → a.Resp → Bool
  | .send peerId _ _, (out : SendOutcome) => peerId != secondId || out == .sent
  | _, _ => true

/-- No chunk was refused or retried, and a source is there. -/
def untried (s : Receiver) : Bool :=
  s.chunkRetries.entries.isEmpty && s.chunkTried.entries.isEmpty && !s.sources.isEmpty

variable {ok : SendOutcome → Bool} {x : ActRecord}

lemma get_of_isEmpty {ν : Type} {m : AMap ℕ ν} (h : m.entries.isEmpty = true) (i : ℕ) :
    m.get i = none := by
  rw [AList.get, AList.lookup, List.isEmpty_iff.1 h]
  rfl

lemma untried_spec {s : Receiver} (h : untried s = true) (i : ℕ) :
    s.retriesOf i = 0 ∧ s.refusedByAll i = false := by
  simp only [untried, Bool.and_eq_true] at h
  obtain ⟨⟨hretries, htried⟩, hsources⟩ := h
  refine ⟨by rw [Receiver.retriesOf, get_of_isEmpty hretries i]; rfl, ?_⟩
  rw [Receiver.refusedByAll, Receiver.triedOf, get_of_isEmpty htried i]
  cases hs : s.sources with
  | nil => simp [hs] at hsources
  | cons g l => simp

lemma not_excused_of_early (hok : ok .cancelled = false) (h : early ok x.1 x.2 = true) :
    ¬LocalCancel x ∧ ¬DiskFault ps x ∧ ¬SourcesGone x := by
  obtain ⟨a, r⟩ := x
  cases a with
  | send peerId frame checked =>
    refine ⟨fun hc => ?_, id, id⟩
    rw [show r = SendOutcome.cancelled from hc] at h
    exact absurd (hok.symm.trans h) Bool.false_ne_true
  | tryAcquireSlot peerId index slots =>
    exact ⟨fun hc => Bool.false_ne_true (Eq.trans (Eq.symm hc) h), id, id⟩
  | await s => cases h
  | writePart index bytes => cases h
  | createStaging => cases h
  | readPart index => cases h
  | syncStaging => cases h
  | rereadStaging => cases h
  | completeDownload => cases h
  | _ => exact ⟨id, id, id⟩

lemma holds_of_early (hok : ∀ out, ok out = true → out = .sent) (h : early ok x.1 x.2 = true) :
    SourceHolds x := by
  obtain ⟨a, r⟩ := x
  cases a with
  | send peerId frame checked =>
    have hsent : r = SendOutcome.sent := hok r h
    subst hsent
    cases checked with
    | false => exact ⟨id, id, id⟩
    | true => exact ⟨fun ⟨e, he⟩ => (by cases he), fun ⟨e, he⟩ => (by cases he), id⟩
  | await s => cases h
  | _ => exact ⟨id, id, id⟩

lemma not_mismatch_of_early {tr : List ActRecord} (h : ∀ x ∈ tr, early ok x.1 x.2 = true) :
    ¬Mismatch params tr := by
  rintro (⟨parts, hparts, -⟩ | ⟨whole, hmem, -⟩)
  · cases hparts with
    | cons hpart hrest =>
      obtain ⟨path, hmem⟩ := hpart.2
      exact absurd (h _ hmem) Bool.false_ne_true
  · exact absurd (h _ hmem) Bool.false_ne_true

/-- The store fails before the loop, which is no source's doing. -/
def storeFails : List RunInput :=
  List.replicate 8 .calm ++ [{ store := ⟨some "disk I/O error", 0⟩ }] ++ List.replicate 7 .calm

theorem failures_isolated_store_fails : ∃ tr e,
    (runMultiSource params 1 (start peers)).Does tr (.ret (some e)) ∧ e.outcome ≠ .ok .complete ∧
      Excused params tr e := by
  have hrun : ∃ tr e, (runMultiSource params 1 (start peers)).Does tr (.ret (some e)) ∧
      (∀ x ∈ tr, early (· == .sent) x.1 x.2 = true) ∧
        decide (e.outcome ≠ .ok .complete) = true :=
    exists_does (world .pending) storeFails _ _ (by decide)
  obtain ⟨tr, e, hdoes, hall, hne⟩ := hrun
  simp only [decide_eq_true_eq] at hne
  refine ⟨tr, e, hdoes, hne, ?_⟩
  exact failures_isolated planned started_two hdoes
    (fun x hx => holds_of_early (fun out hout => by simpa using hout) (hall x hx))
    (not_mismatch_of_early hall) hne

/-- The first source is gone when it is asked for the chunk. -/
def sourceCloses : List RunInput :=
  List.replicate 17 .calm ++ [{ out := .failed .closed }] ++ List.replicate 7 .calm

/-- One source closes its channel, and the run of both is cancelled. -/
theorem not_failures_isolated : ∃ tr e,
    (runMultiSource params 1 (start peers)).Does tr (.ret (some e)) ∧
      e.outcome = .error .cancelled ∧
      ¬Excused params tr e ∧ ∀ frame checked (out : SendOutcome),
        (⟨.send secondId frame checked, out⟩ : ActRecord) ∈ tr → out = .sent := by
  have hrun : ∃ tr e, (runMultiSource params 1 (start peers)).Does tr (.ret (some e)) ∧
      (∀ x ∈ tr, (early (· != .cancelled) x.1 x.2 && secondServes x.1 x.2) = true) ∧
        (decide (e.outcome = .error .cancelled) && untried e.receiver) = true :=
    exists_does (world .pending) sourceCloses _ _ (by decide +kernel)
  obtain ⟨tr, e, hdoes, hall, hend⟩ := hrun
  simp only [Bool.and_eq_true, decide_eq_true_eq] at hall hend
  refine ⟨tr, e, hdoes, hend.1, ?_, fun frame checked out hx => ?_⟩
  · have hearly (x : ActRecord) (hx : x ∈ tr) :
        ¬LocalCancel x ∧ ¬DiskFault params x ∧ ¬SourcesGone x :=
      not_excused_of_early rfl (hall x hx).1
    intro hexcused
    cases hexcused with
    | cancelled x hx h => exact (hearly x hx).1 h
    | storage message h => rw [hend.1] at h; cases h
    | disk x hx h => exact (hearly x hx).2.1 h
    | spent i h =>
      rw [(untried_spec hend.2 i).1] at h
      exact absurd h (by decide)
    | refused i h =>
      rw [(untried_spec hend.2 i).2] at h
      cases h
    | sourcesGone x hx h => exact (hearly x hx).2.2 h
  · simpa [secondServes] using (hall _ hx).2

end OneChunk

end Locast.Transfer
