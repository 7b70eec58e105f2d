import Locast.Lib.Base64
import Locast.Transfer.RunEnds

/-!
# The invariant of a multi-source run

Whatever the sources, the store and the disk answer, the orchestrator keeps its books: the windows
of the schedulers are the records of the requests, every chunk is in one place, and what it counts
as verified was written.
-/

namespace Locast.Transfer

open Locast.Lib

variable {ps : RunParams}

/-! ### The start -/

lemma duplicateId_none {ids seen : List String} (h : duplicateId seen ids = none) :
    ids.Nodup ∧ ∀ id ∈ ids, id ∉ seen := by
  induction ids generalizing seen with
  | nil => exact ⟨List.nodup_nil, fun id hid => absurd hid List.not_mem_nil⟩
  | cons id ids ih =>
    unfold duplicateId at h
    split at h
    · cases h
    rename_i hseen
    obtain ⟨hnodup, hnot⟩ := ih h
    refine ⟨List.nodup_cons.2 ⟨fun hmem => hnot id hmem List.mem_cons_self, hnodup⟩, ?_⟩
    intro id' hid'
    rcases List.mem_cons.1 hid' with rfl | hid'
    · exact hseen
    · exact fun hmem => hnot id' hid' (List.mem_cons_of_mem _ hmem)

/-- The sources of a run, as its caller makes them. -/
def freshSources (peers : List (String × ℤ)) : List SourceHandle :=
  peers.map fun peer => .fresh peer.1 peer.2

lemma starts_of_new {peers : List (String × ℤ)} {s : Receiver}
    (h : Receiver.new (freshSources peers) = .ok s) : s.Starts := by
  unfold Receiver.new at h
  split at h
  · cases h
  split at h
  · cases h
  rename_i hdup
  obtain rfl := Except.ok.inj h
  refine ⟨(duplicateId_none hdup).1, fun h hh => ?_, rfl⟩
  obtain ⟨peer, -, rfl⟩ := List.mem_map.1 hh
  rfl

/-! ### The file -/

/-- The chunks of a laid out file. -/
lemma part_of_flatten {done : List ActRecord} {chunks : List PlannedChunk} {parts : List Bytes}
    (h : List.Forall₂ (PartRead done) chunks parts) {i : ℕ} {chunk : PlannedChunk}
    (hget : chunks[i]? = some chunk) :
    PartRead done chunk ((parts.flatten.drop ((chunks.take i).map PlannedChunk.length).sum).take
      chunk.length) := by
  induction h generalizing i with
  | nil => simp at hget
  | @cons c part chunks parts hpart hrest ih =>
    cases i with
    | zero =>
      obtain rfl : c = chunk := by simpa using hget
      simpa [← hpart.1] using hpart
    | succ i =>
      have hget' : chunks[i]? = some chunk := by simpa using hget
      rw [List.flatten_cons, List.take_succ_cons, List.map_cons, List.sum_cons, ← hpart.1,
        ← List.drop_drop, List.drop_left]
      exact ih hget'

/-! ### The invariant -/

/-- **What holds at the head of the loop.** -/
structure AtHead (ps : RunParams) (done : List ActRecord) (s : Receiver) : Prop where
  slots : ∀ h ∈ s.sources, ∀ i, i ∈ h.slots ↔
    ∃ record, s.inFlight.get i = some record ∧ record.peerId = h.peerId
  window : ∀ h ∈ s.sources, h.slots.card ≤ windowSize
  partition : ∀ i < ps.plan.chunks.length,
    (i ∈ s.haveSet ∧ s.inFlight.get i = none ∧ i ∉ s.pending ps.plan) ∨
    (i ∉ s.haveSet ∧ (∃! h, h ∈ s.sources ∧ s.inFlightAt i h.peerId = true) ∧
      i ∉ s.pending ps.plan) ∨
    (i ∉ s.haveSet ∧ s.inFlight.get i = none ∧ i ∈ s.pending ps.plan)
  verified : ∀ i ∈ s.haveSet, InitiallyHad done i ∨ Stored ps done i

/-- **What a complete download leaves**: the file that was put together has the digests of the
manifest and each chunk at its planned offset. -/
structure FileComplete (ps : RunParams) (done : List ActRecord) : Prop where
  assembled : ∃ file : Bytes, file.length = ps.plan.sizeBytes ∧
    ps.sha256Hex file = ps.plan.sha256 ∧
    ∀ chunk ∈ ps.plan.chunks, PartRead done chunk ((file.drop chunk.offset).take chunk.length)
  reread : ∃ whole : Bytes,
    (⟨.rereadStaging, (.ok whole : Except AssembleError Bytes)⟩ : ActRecord) ∈ done ∧
    whole.length = ps.plan.sizeBytes ∧ ps.blake3Hex whole = ps.plan.blake3

lemma Good.atHead {s : Receiver} {had : List ℕ} {done : List ActRecord} (hg : Good ps had s done)
    (hl : ps.plan.Layout) : AtHead ps done s where
  slots h hh i := (hg.inv.slots h hh i).trans Receiver.inFlightAt_iff
  window _ hh := (hg.inv.slots_card_le hh).trans hg.inv.window
  partition _ hi := hg.inv.partition hl hi
  verified := hg.initially

/-- The run enters its loop with chunks of its plan only, or with all of them. -/
def BeginsWithin (ps : RunParams) (done : List ActRecord) : Prop :=
  ∀ had, BegunWith had done →
    (∀ i ∈ had, i < ps.plan.chunks.length) ∨ ∀ i < ps.plan.chunks.length, i ∈ had

/-- **Every planned chunk is verified.** -/
def AllVerified (ps : RunParams) (done : List ActRecord) (s : Receiver) : Prop :=
  ∀ i < ps.plan.chunks.length, i ∈ s.haveSet ∧ (InitiallyHad done i ∨ Stored ps done i)

lemma Completed.verified {s : Receiver} {done : List ActRecord} (h : Completed ps done s)
    (hl : ps.plan.Layout) (hbegin : BeginsWithin ps done) : AllVerified ps done s := by
  obtain ⟨had, hfilled⟩ := h.filled
  intro i hi
  have hmem := hfilled.all hl (hbegin had hfilled.begun) i hi
  exact ⟨hmem, hfilled.good.initially i hmem⟩

lemma Completed.file {s : Receiver} {done : List ActRecord} (h : Completed ps done s)
    (hl : ps.plan.Layout) : FileComplete ps done := by
  obtain ⟨-, ⟨parts, hparts, hlen, hsha⟩, hreread⟩ := h
  refine ⟨⟨parts.flatten, hlen, hsha, ?_⟩, hreread⟩
  intro chunk hchunk
  obtain ⟨i, hget⟩ := List.getElem?_of_mem hchunk
  rw [hl.offset i chunk hget]
  exact part_of_flatten hparts hget

/-- **The books are kept in every run**, whatever it is answered: at every head of the loop, at
every request for a slot, and when the download is complete.  That every planned chunk is verified
then is so when the run does not begin with a chunk beyond its plan, since the loop counts what it
has. -/
theorem books_kept {downloadId mediaId : String} {manifestVersion : ℤ}
    {entry : Protocol.MediaEntry} {peerId : String} {peers : List (String × ℤ)} {s₀ : Receiver}
    {fuel : ℕ} {tr : List ActRecord} {q : Prog Act Act.Resp (Option Ending)}
    (hplan : planDownload downloadId mediaId manifestVersion entry peerId = .ok ps.plan)
    (hnew : Receiver.new (freshSources peers) = .ok s₀)
    (hrun : (runMultiSource ps fuel s₀).Does tr q) :
    (∀ l s l', tr = l ++ ⟨.head s, ()⟩ :: l' → AtHead ps l s) ∧
    (∀ peerId index slots granted, (⟨.tryAcquireSlot peerId index slots, granted⟩ :
      ActRecord) ∈ tr → slots.card < windowSize) ∧
    ∀ s, q = .ret (some ⟨.ok .complete, s⟩) →
      FileComplete ps tr ∧ (BeginsWithin ps tr → AllVerified ps tr s) := by
  have hl := layout_of_planDownload hplan
  have hspec : (runMultiSource ps fuel s₀).Sat (watch ps) (Concluded ps) [] :=
    runMultiSource_spec hl fuel (starts_of_new hnew)
  obtain ⟨hsat, hmay⟩ := hspec.does hrun fun _ _ => trivial
  refine ⟨fun l s l' hcut => ?_, fun peerId index slots granted hmem => ?_, fun s hq => ?_⟩
  · obtain ⟨had, hgood⟩ : ∃ had, Good ps had s l := hmay l _ l' hcut
    exact hgood.atHead hl
  · obtain ⟨l, l', hcut⟩ := List.append_of_mem hmem
    exact hmay l _ l' hcut
  · subst hq
    have hcompleted : Completed ps tr s := Ended.complete hsat rfl
    exact ⟨hcompleted.file hl, hcompleted.verified hl⟩

/-! ### A run of one chunk -/

namespace OneChunk

def hostId : String := .ofList (List.replicate 64 'a')

/-- The digests of the file that holds one letter. -/
def sha256 : String := "ca978112ca1bbdcafac231b39a23dc4da786eff8147c4e72b9807785afee48bb"
def blake3 : String := "17762fddd969a453925d65717ac3eea21320b66b54342fde15128d6caf21215f"

def entry : Protocol.MediaEntry where
  id := "m"
  filename := "a.txt"
  sha256 := sha256
  blake3 := blake3
  sizeBytes := 1
  mime := "text/plain"
  durationMs := 0
  dimensions := none
  codecs := none
  sources := [⟨hostId, none, 0, chunkSizeBytes, 1, [sha256]⟩]

def plan : DownloadPlan where
  downloadId := "d"
  mediaId := "m"
  sha256 := sha256
  blake3 := blake3
  sizeBytes := 1
  source := ⟨hostId, ⟨hostId, none, 0, chunkSizeBytes, 1, [sha256]⟩⟩
  sourceMeta := ⟨chunkSizeBytes, 1⟩
  chunks := [⟨0, 0, 1, sha256⟩]
  manifestVersion := 1

def params : RunParams where
  sha256Hex bytes := if bytes = [97] then sha256 else ""
  blake3Hex bytes := if bytes = [97] then blake3 else ""
  base64Decode := Base64.decode
  sanitizeErrorMessage := id
  localPeerId := .ofList (List.replicate 64 'b')
  plan := plan

/-- The store of the download, with the state it is in. -/
def world (state : DownloadState) : Calls where
  state := (∅ : Db).insert "d" {
    mediaId := "m"
    roomId := none
    userId := "u"
    state := state
    totalBytes := 1
    transferredBytes := 0
    startedAt := 0
    completedAt := none
    lastError := none
    sourcePeerId := some hostId
    chunkSizeBytes := chunkSizeBytes
    manifestVersion := 1
    chunks := (∅ : AMap ℕ ChunkRow).insert 0 ⟨0, 1, sha256, .pending⟩ }
  tasks := []

def start (peers : List (String × ℤ)) : Receiver :=
  ⟨freshSources peers, ∅, ∅, ∅, ∅, ∅, ∅⟩

def chunk : Frame := .chunk ⟨"d", 0, "YQ==", sha256⟩

lemma sha256_hex : is64LowercaseHex sha256 = true := is64LowercaseHex_ofList (by decide) (by decide)

lemma blake3_hex : is64LowercaseHex blake3 = true := is64LowercaseHex_ofList (by decide) (by decide)

lemma hostId_hex : is64LowercaseHex hostId = true := is64LowercaseHex_ofList (by decide) (by decide)

lemma planned : planDownload "d" "m" 1 entry hostId = .ok plan := by
  refine planDownload_eq_ok.2 ⟨⟨hostId, none, 0, chunkSizeBytes, 1, [sha256]⟩, ⟨⟨rfl, rfl, rfl, ?_⟩,
    by decide, sha256_hex, blake3_hex, Nat.one_ne_zero, hostId_hex, ?_⟩, rfl⟩
  · intro hash hhash
    rw [List.mem_singleton.1 hhash]
    exact sha256_hex
  · rw [entry, List.find?_cons_of_pos]
    exact beq_self_eq_true _

lemma started : Receiver.new (freshSources [(hostId, 0)]) = .ok (start [(hostId, 0)]) := by
  simp [Receiver.new, freshSources, duplicateId, start]

/-- The host sends the chunk when it is asked for it. -/
def inputs : List RunInput :=
  List.replicate 19 .calm ++ [{ inbound := .frame hostId chunk }] ++ List.replicate 14 .calm ++
    [{ part := .ok ("d.part.0", [97]) }, .calm, { whole := .ok [97] }] ++ List.replicate 7 .calm

/-- No chunk was complete when the run asked. -/
def nothingHad : (a : Act) → a.Resp → Bool
  | .completedChunkIndices, (r : Except String (List ℕ)) => decide (r = .ok [])
  | _, _ => true

lemma had_of_nothingHad {tr : List ActRecord} (h : ∀ x ∈ tr, nothingHad x.1 x.2 = true)
    {had : List ℕ} (hbegun : BegunWith had tr) : had = [] := by
  obtain ⟨l, s, l', rfl⟩ := hbegun
  have hr : decide ((.ok had : Except String (List ℕ)) = .ok []) = true :=
    h _ (List.mem_append_right _ List.mem_cons_self)
  exact Except.ok.inj (of_decide_eq_true hr)

/-- A host that sends the one chunk it is asked for. -/
theorem books_kept_one_chunk : ∃ tr s,
    (runMultiSource params 2 (start [(hostId, 0)])).Does tr (.ret (some ⟨.ok .complete, s⟩)) ∧
      (∀ l t l', tr = l ++ ⟨.head t, ()⟩ :: l' → AtHead params l t) ∧ FileComplete params tr ∧
        AllVerified params tr s := by
  have hrun : ∃ tr e, (runMultiSource params 2 (start [(hostId, 0)])).Does tr (.ret (some e)) ∧
      (∀ x ∈ tr, nothingHad x.1 x.2 = true) ∧ decide (e.outcome = .ok .complete) = true :=
    exists_does (world .pending) inputs _ _ (by decide +kernel)
  obtain ⟨tr, ⟨outcome, s⟩, hdoes, hnothing, hok⟩ := hrun
  obtain rfl : outcome = .ok .complete := of_decide_eq_true hok
  have hbegins : BeginsWithin params tr := fun had hbegun => by
    rw [had_of_nothingHad hnothing hbegun]
    exact .inl (by simp)
  obtain ⟨hheads, -, hend⟩ := books_kept planned started hdoes
  obtain ⟨hfile, hverified⟩ := hend s rfl
  exact ⟨tr, s, hdoes, hheads, hfile, hverified hbegins⟩

/-- The store of a download that was begun when the file had two chunks: the second is verified, and
the first was written but not marked when it stopped. -/
def grown : Calls where
  state := (∅ : Db).insert "d" {
    mediaId := "m"
    roomId := none
    userId := "u"
    state := .transferring
    totalBytes := 1
    transferredBytes := 0
    startedAt := 0
    completedAt := none
    lastError := none
    sourcePeerId := some hostId
    chunkSizeBytes := chunkSizeBytes
    manifestVersion := 1
    chunks := ((∅ : AMap ℕ ChunkRow).insert 0 ⟨0, 1, sha256, .pending⟩).insert 1
      ⟨chunkSizeBytes, 1, sha256, .verified⟩ }
  tasks := []

/-- The loop ends at once, and the file of the first chunk is there. -/
def assembles : List RunInput :=
  List.replicate 10 .calm ++ [{ part := .ok ("d.part.0", [97]) }, .calm, { whole := .ok [97] }] ++
    List.replicate 7 .calm

/-- The file has one chunk now, and its row still counts a second: the download completes without
the one chunk of its plan. -/
theorem not_books_kept :
    planDownload "d" "m" 1 entry hostId = .ok params.plan ∧
    Receiver.new (freshSources [(hostId, 0)]) = .ok (start [(hostId, 0)]) ∧
    ∃ tr s, (runMultiSource params 1 (start [(hostId, 0)])).Does tr
      (.ret (some ⟨.ok .complete, s⟩)) ∧ ¬AllVerified params tr s := by
  have hrun : ∃ tr e, (runMultiSource params 1 (start [(hostId, 0)])).Does tr (.ret (some e)) ∧
      (∀ x ∈ tr, (fun _ => true) x = true) ∧
        (decide (e.outcome = .ok .complete) && decide (0 ∉ e.receiver.haveSet)) = true :=
    exists_does grown assembles _ _ (by decide +kernel)
  obtain ⟨tr, ⟨outcome, s⟩, hdoes, -, hend⟩ := hrun
  simp only [Bool.and_eq_true, decide_eq_true_eq] at hend
  obtain ⟨rfl, hmissing⟩ := hend
  exact ⟨planned, started, tr, s, hdoes, fun h => hmissing (h 0 Nat.one_pos).1⟩

end OneChunk

end Locast.Transfer
