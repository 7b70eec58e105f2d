import Locast.Transfer.ReceiverInv
import Locast.Transfer.RunWorld

/-!
# What a run may do

One specification for each part of `run_multi_source`, over everything that was done before: what
the state is at the head of the loop and at its wait, when a slot is asked for and an `Ack` is sent,
and why a run ends.
-/

namespace Locast.Transfer

open Locast.Lib

variable {ps : RunParams}

/-! ### What was done -/

/-- The store said that the chunk had been complete before. -/
def InitiallyHad (done : List ActRecord) (i : ℕ) : Prop :=
  ∃ indices : List ℕ,
    (⟨.completedChunkIndices, (.ok indices : Except String (List ℕ))⟩ : ActRecord) ∈ done ∧
    i ∈ indices

/-- The row of a chunk is `verified` with this hash. -/
def Marked (id : String) (i : ℕ) (sha256 : String) (done : List ActRecord) : Prop :=
  (⟨.store (.setVerified id i), (.ok () : Except String Unit)⟩ : ActRecord) ∈ done ∨
    ∃ row : ChunkRow, row.state = .verified ∧ row.sha256 = sha256 ∧
      (⟨.store (.selectChunk id i), (.ok (some row) : Except String (Option ChunkRow))⟩ :
        ActRecord) ∈ done

/-- Bytes of the planned length and hash were written as a chunk. -/
def Written (ps : RunParams) (done : List ActRecord) (i : ℕ) : Prop :=
  ∃ chunk, ps.plan.chunks[i]? = some chunk ∧ ∃ bytes, bytes.length = chunk.length ∧
    ps.sha256Hex bytes = chunk.sha256 ∧
      (⟨.writePart i bytes, (.ok () : Except String Unit)⟩ : ActRecord) ∈ done

/-- The chunk was verified and stored. -/
def Stored (ps : RunParams) (done : List ActRecord) (i : ℕ) : Prop :=
  Written ps done i ∧ ∃ chunk, ps.plan.chunks[i]? = some chunk ∧
    Marked ps.plan.downloadId i chunk.sha256 done

/-- The orchestrator has the chunks it had at first, and those it has stored. -/
structure Justified (ps : RunParams) (had : List ℕ) (done : List ActRecord)
    (s : Receiver) : Prop where
  keeps : ∀ i ∈ had, i ∈ s.haveSet
  stored : ∀ i ∈ s.haveSet, i ∈ had ∨ Stored ps done i

/-- The state the loop goes on with, when it has begun with these chunks. -/
structure Good (ps : RunParams) (had : List ℕ) (s : Receiver) (done : List ActRecord) : Prop where
  inv : s.Inv ps.plan
  answered : (⟨.completedChunkIndices, (.ok had : Except String (List ℕ))⟩ : ActRecord) ∈ done
  justified : Justified ps had done s

section Mono

variable {done done' : List ActRecord} {s t : Receiver} {had : List ℕ} {i : ℕ}

lemma Stored.lt (h : Stored ps done i) : i < ps.plan.chunks.length := by
  obtain ⟨⟨chunk, hget, -⟩, -⟩ := h
  exact (List.getElem?_eq_some_iff.1 hget).1

lemma Stored.mono (h : Stored ps done i) (hpre : done <+: done') : Stored ps done' i := by
  obtain ⟨⟨chunk, hget, bytes, hlen, hsha, hmem⟩, chunk', hget', hmark⟩ := h
  refine ⟨⟨chunk, hget, bytes, hlen, hsha, hpre.subset hmem⟩, chunk', hget', ?_⟩
  rcases hmark with hmark | ⟨row, hstate, hrow, hmark⟩
  · exact .inl (hpre.subset hmark)
  · exact .inr ⟨row, hstate, hrow, hpre.subset hmark⟩

lemma Justified.mono (h : Justified ps had done s) (hpre : done <+: done') :
    Justified ps had done' s :=
  ⟨h.keeps, fun i hi => (h.stored i hi).imp_right fun hs => hs.mono hpre⟩

lemma Good.mono (h : Good ps had s done) (hpre : done <+: done') : Good ps had s done' :=
  ⟨h.inv, hpre.subset h.answered, h.justified.mono hpre⟩

lemma Good.initially (h : Good ps had s done) :
    ∀ i ∈ s.haveSet, InitiallyHad done i ∨ Stored ps done i := fun i hi =>
  (h.justified.stored i hi).imp_left fun hmem => ⟨had, h.answered, hmem⟩

lemma Good.snoc (h : Good ps had s done) (x : ActRecord) : Good ps had s (done ++ [x]) :=
  h.mono (List.prefix_append _ _)

/-- Another state with the same chunks. -/
lemma Good.keep (h : Good ps had s done) (ht : t.Inv ps.plan) (hhave : t.haveSet = s.haveSet) :
    Good ps had t done :=
  ⟨ht, h.answered, fun i hi => hhave ▸ h.justified.keeps i hi,
    fun i hi => h.justified.stored i (hhave ▸ hi)⟩

end Mono

/-! ### How a run ends -/

/-- The download was cancelled here: its token had fired. -/
def LocalCancel : ActRecord → Prop
  | ⟨.send .., (out : SendOutcome)⟩ => out = .cancelled
  | ⟨.tryAcquireSlot .., (granted : Bool)⟩ => granted = false
  | ⟨.await _, (inbound : Inbound)⟩ => inbound = .cancelled
  | _ => False

/-- A send failed whose outcome the caller looks at: a `Hello`, or the request of a dispatch. -/
def SendFailure : ActRecord → Prop
  | ⟨.send _ _ true, (out : SendOutcome)⟩ => ∃ e, out = .failed e
  | _ => False

/-- The codec refused such a frame. -/
def Unencodable : ActRecord → Prop
  | ⟨.send _ _ true, (out : SendOutcome)⟩ => ∃ e, out = .malformed e
  | _ => False

/-- A source ended its session. -/
def SourceQuits : ActRecord → Prop
  | ⟨.await _, (inbound : Inbound)⟩ =>
    ∃ peerId f, inbound = .frame peerId f ∧ (f.kind = .cancel ∨ f.kind = .error)
  | _ => False

/-- Every transport has ended. -/
def SourcesGone : ActRecord → Prop
  | ⟨.await _, (inbound : Inbound)⟩ => inbound = .gone
  | _ => False

/-- The file system refused something, or gave a file of another length. -/
def DiskFault (ps : RunParams) : ActRecord → Prop
  | ⟨.writePart .., (r : Except String Unit)⟩ => ∃ e, r = .error e
  | ⟨.createStaging, (r : Except AssembleError Unit)⟩ => ∃ e, r = .error e
  | ⟨.readPart i, (r : Except AssembleError (String × Bytes))⟩ => (∃ e, r = .error e) ∨
    ∃ chunk ∈ ps.plan.chunks, chunk.index = i ∧ ∃ path bytes, r = .ok (path, bytes) ∧
      bytes.length ≠ chunk.length
  | ⟨.syncStaging, (r : Except AssembleError Unit)⟩ => ∃ e, r = .error e
  | ⟨.rereadStaging, (r : Except AssembleError Bytes)⟩ => (∃ e, r = .error e) ∨
    ∃ bytes, r = .ok bytes ∧ bytes.length ≠ ps.plan.sizeBytes
  | ⟨.completeDownload, (r : Except AssembleError Unit)⟩ => ∃ e, r = .error e
  | _ => False

/-- The file of the chunk was read, and has the planned length. -/
def PartRead (done : List ActRecord) (chunk : PlannedChunk) (part : Bytes) : Prop :=
  part.length = chunk.length ∧ ∃ path, (⟨.readPart chunk.index,
    (.ok (path, part) : Except AssembleError (String × Bytes))⟩ : ActRecord) ∈ done

/-- The chunk files, as they were read. -/
def PartsRead (ps : RunParams) (done : List ActRecord) (parts : List Bytes) : Prop :=
  List.Forall₂ (PartRead done) ps.plan.chunks parts

/-- The file that was put together is not the one of the manifest. -/
def Mismatch (ps : RunParams) (done : List ActRecord) : Prop :=
  (∃ parts, PartsRead ps done parts ∧ (parts.flatten.length ≠ ps.plan.sizeBytes ∨
    ps.sha256Hex parts.flatten ≠ ps.plan.sha256)) ∨
  ∃ whole : Bytes, (⟨.rereadStaging, (.ok whole : Except AssembleError Bytes)⟩ : ActRecord) ∈ done ∧
    ps.blake3Hex whole ≠ ps.plan.blake3

/-- The file was put together from the chunk files, and is the one of the manifest. -/
structure Assembled (ps : RunParams) (done : List ActRecord) : Prop where
  parts : ∃ parts, PartsRead ps done parts ∧ parts.flatten.length = ps.plan.sizeBytes ∧
    ps.sha256Hex parts.flatten = ps.plan.sha256
  reread : ∃ whole : Bytes,
    (⟨.rereadStaging, (.ok whole : Except AssembleError Bytes)⟩ : ActRecord) ∈ done ∧
    whole.length = ps.plan.sizeBytes ∧ ps.blake3Hex whole = ps.plan.blake3

/-- The run entered its loop when the store had answered that these chunks are complete. -/
def BegunWith (had : List ℕ) (done : List ActRecord) : Prop :=
  ∃ l s l', done = l ++ ⟨.completedChunkIndices, (.ok had : Except String (List ℕ))⟩ ::
    ⟨.head s, ()⟩ :: l'

/-- The loop has ended: as many chunks are there as the plan has. -/
structure Filled (ps : RunParams) (had : List ℕ) (done : List ActRecord) (s : Receiver) : Prop where
  begun : BegunWith had done
  good : Good ps had s done
  enough : asU32 ps.plan.chunks.length ≤ asU32 s.haveSet.card

/-- The loop has ended, and the file that was put together is the one of the manifest. -/
structure Completed (ps : RunParams) (done : List ActRecord) (s : Receiver) : Prop where
  filled : ∃ had, Filled ps had done s
  assembled : Assembled ps done

/-- **Why a run ends without its download being complete.** -/
inductive Cause (ps : RunParams) (done : List ActRecord) (e : Ending) : Prop
  | cancelled (x : ActRecord) (hx : x ∈ done) (h : LocalCancel x)
  | sendFailure (x : ActRecord) (hx : x ∈ done) (h : SendFailure x)
  | unencodable (x : ActRecord) (hx : x ∈ done) (h : Unencodable x)
  | sourceQuits (x : ActRecord) (hx : x ∈ done) (h : SourceQuits x)
  | sourcesGone (x : ActRecord) (hx : x ∈ done) (h : SourcesGone x)
  | spent (i : ℕ) (h : maxChunkRetries ≤ e.receiver.retriesOf i)
  | refused (i : ℕ) (h : e.receiver.refusedByAll i = true)
  | storage (message : String) (h : e.outcome = .error (.storage message))
  | disk (x : ActRecord) (hx : x ∈ done) (h : DiskFault ps x)
  | mismatch (h : Mismatch ps done)

/-- What is known when a run ends. -/
structure Ended (ps : RunParams) (done : List ActRecord) (e : Ending) : Prop where
  complete : e.outcome = .ok .complete → Completed ps done e.receiver
  cause : e.outcome ≠ .ok .complete → Cause ps done e

/-! ### The rules -/

/-- The source has just sent a chunk that is not in flight at it. -/
def Unasked (done : List ActRecord) (peerId : String) (i : ℕ) : Prop :=
  ∃ (s : Receiver) (chunk : ChunkFrame), chunk.chunkIndex = i ∧ s.inFlightAt i peerId = false ∧
    done.getLast? = some ⟨.await s, Inbound.frame peerId (.chunk chunk)⟩

/-- What the run may do after what was done. -/
def May (ps : RunParams) (done : List ActRecord) : Act → Prop
  | .tryAcquireSlot _ _ slots => slots.card < windowSize
  | .head s => ∃ had, Good ps had s done
  | .await s => ∃ had, Good ps had s done
  | .send peerId (.ack f) _ => Stored ps done f.chunkIndex ∨ Unasked done peerId f.chunkIndex
  | _ => True

/-- The automaton of the run: its whole past, whatever it was answered. -/
abbrev watch (ps : RunParams) : Automaton Act Act.Resp (List ActRecord) :=
  .past (May ps) fun _ _ => True

/-- A part of the run: it goes on with `P`, or the run ends for a reason. -/
def Step.Meets {α : Type} (ps : RunParams) (m : Step α) (P : α → List ActRecord → Prop)
    (done : List ActRecord) : Prop :=
  m.Sat (watch ps) (fun r done =>
    match r with
    | .error e => Ended ps done e
    | .ok a => P a done) done

section Rules

open Step

variable {α β : Type} {P : α → List ActRecord → Prop} {Q : β → List ActRecord → Prop}
  {done : List ActRecord} {s : Receiver}

lemma meets_fail {e : MultiSourceError} (h : Cause ps done ⟨.error e, s⟩) :
    (Step.fail e s : Step α).Meets ps P done :=
  ⟨fun heq => (by cases heq), fun _ => h⟩

lemma Step.Meets.andThen {m : Step α} {f : α → Step β} (hm : m.Meets ps P done)
    (hf : ∀ a done, P a done → (f a).Meets ps Q done) : (m.andThen f).Meets ps Q done := by
  refine Prog.Sat.bind hm fun r done' hr => ?_
  cases r with
  | error e => exact hr
  | ok a => exact hf a done' hr

/-- What a statement of a call did, as a record of the run. -/
def storeRecord (x : (e : Effect) × e.Resp) : ActRecord := ⟨.store x.1, x.2⟩

variable (ps) in
/-- A call of the store does what it does on its own. -/
lemma sat_liftStore {call : Prog Effect Effect.Resp α} {R : α → List ((e : Effect) × e.Resp) → Prop}
    {g : List ((e : Effect) × e.Resp)} (pre : List ActRecord)
    (h : call.Sat (.past (fun _ _ => True) fun _ _ => True) R g) :
    (liftStore call).Sat (watch ps) (fun r done => ∃ g', R r g' ∧ done = pre ++ g'.map storeRecord)
      (pre ++ g.map storeRecord) := by
  induction call generalizing g with
  | ret a => exact ⟨g, h, rfl⟩
  | op e k ih =>
    refine ⟨trivial, fun r _ => ?_⟩
    have hrest := ih r (h.2 r trivial)
    rw [Automaton.past, List.map_append, ← List.append_assoc] at hrest
    exact hrest

lemma sat_true (call : Prog Effect Effect.Resp α) (g : List ((e : Effect) × e.Resp)) :
    call.Sat (.past (fun _ _ => True) fun _ _ => True) (fun _ _ => True) g := by
  induction call generalizing g with
  | ret a => trivial
  | op e k ih => exact ⟨trivial, fun r _ => ih r _⟩

/-- After a call of the store more was done. -/
lemma sat_bind_liftStore {call : Prog Effect Effect.Resp α} {k : α → Prog Act Act.Resp β}
    {R : β → List ActRecord → Prop}
    (hk : ∀ r done', done <+: done' → (k r).Sat (watch ps) R done') :
    (Prog.bind (liftStore call) k).Sat (watch ps) R done := by
  have h := sat_liftStore ps done (sat_true call [])
  rw [List.map_nil, List.append_nil] at h
  refine Prog.Sat.bind h fun r done' hr => ?_
  obtain ⟨g', -, rfl⟩ := hr
  exact hk r _ (List.prefix_append _ _)

/-- A send that nobody looks at. -/
lemma meets_send {frame : Frame} {peerId : String} (hmay : May ps done (.send peerId frame false)) :
    (sendTo peerId frame s).Meets ps (fun t done' => t = s ∧ done <+: done') done := by
  unfold sendTo
  split
  · exact ⟨hmay, fun _ _ => ⟨rfl, List.prefix_append _ _⟩⟩
  · exact ⟨rfl, List.prefix_rfl⟩

end Rules

/-! ### Requests -/

section Requests

open Step

variable {done : List ActRecord} {s : Receiver} {had : List ℕ}

/-- A checked send that did not succeed ends the run for one of three reasons. -/
lemma cause_of_sendError {out : SendOutcome} {e : Ending} (peerId : String) (frame : Frame)
    (hne : out ≠ .sent) :
    Cause ps (done ++ [(⟨.send peerId frame true, out⟩ : ActRecord)]) e := by
  have hmem : (⟨.send peerId frame true, out⟩ : ActRecord) ∈
      done ++ [(⟨.send peerId frame true, out⟩ : ActRecord)] := by simp
  cases out with
  | sent => exact absurd rfl hne
  | cancelled => exact .cancelled _ hmem rfl
  | malformed err => exact .unencodable _ hmem ⟨err, rfl⟩
  | failed err => exact .sendFailure _ hmem ⟨err, rfl⟩

/-- One more chunk is in flight. -/
def Dispatched (ps : RunParams) (had : List ℕ) (s : Receiver) (index : ℕ) (t : Receiver)
    (done : List ActRecord) : Prop :=
  Good ps had t done ∧ t.haveSet = s.haveSet ∧ ∀ i ≠ index, t.inFlight.get i = s.inFlight.get i

lemma dispatch_spec {h : SourceHandle} {index : ℕ} (hg : Good ps had s done)
    (hp : s.Pending ps.plan index) (hh : h ∈ s.sources) (hroom : s.inFlight.size < windowSize) :
    (dispatch ps h index s).Meets ps (Dispatched ps had s index) done := by
  have hknown : s.hasSource h.peerId = true := Receiver.hasSource_iff.2 ⟨h, hh, rfl⟩
  refine ⟨lt_of_le_of_lt (hg.inv.slots_card_le hh) hroom, fun (granted : Bool) _ => ?_⟩
  cases granted with
  | false =>
    exact meets_fail (.cancelled _ (List.mem_append_right _ (List.mem_singleton_self _)) rfl)
  | true =>
    refine ⟨trivial, fun (now : ℕ) _ => ⟨trivial, fun (out : SendOutcome) _ => ?_⟩⟩
    have hinv := hg.inv.request ⟨h.peerId, now⟩ hp.idle hp.planned hp.missing hroom hknown
    have hgood := (((hg.snoc ⟨.tryAcquireSlot h.peerId index h.slots, true⟩).snoc ⟨.now, now⟩).snoc
      ⟨.send h.peerId (.request ⟨ps.plan.downloadId, index⟩) true, out⟩).keep hinv rfl
    cases hout : sendError out with
    | none =>
      dsimp only
      rw [hout]
      refine ⟨hgood, rfl, fun i hi => ?_⟩
      exact (AList.get_insert _ _ _ _).trans (if_neg hi)
    | some e =>
      dsimp only
      rw [hout]
      refine meets_fail (cause_of_sendError _ _ ?_)
      rintro rfl
      cases hout

/-- **The window is filled**, and never beyond its size. -/
lemma refill_spec {l : List ℕ} (hg : Good ps had s done) (hp : ∀ i ∈ l, s.Pending ps.plan i)
    (hnodup : l.Nodup) (hroom : s.inFlight.size < windowSize) :
    (refill ps l s).Meets ps (Good ps had) done := by
  induction l generalizing s done with
  | nil => exact hg
  | cons index rest ih =>
    have hrest : ∀ i ∈ rest, s.Pending ps.plan i := fun i hi => hp i (List.mem_cons_of_mem _ hi)
    obtain ⟨hindex, hnodup⟩ := List.nodup_cons.1 hnodup
    unfold refill
    split
    · exact meets_fail (.spent index ‹_›)
    refine ⟨trivial, fun (now : ℕ) _ => ?_⟩
    have hg' := hg.snoc ⟨.now, now⟩
    cases hpick : SourceHandle.pick (s.triedOf index) now s.sources with
    | none =>
      dsimp only
      rw [hpick]
      dsimp only
      split
      · exact meets_fail (.refused index ‹_›)
      · exact ih hg' hrest hnodup hroom
    | some h =>
      dsimp only
      rw [hpick]
      have hh := SourceHandle.mem_of_pick hpick
      refine (dispatch_spec hg' (hp index List.mem_cons_self) hh hroom).andThen
        fun t done ⟨hgt, hhave, hget⟩ => ?_
      split
      · exact hgt
      · refine ih hgt (fun i hi => ?_) hnodup (Nat.lt_of_not_le ‹_›)
        have hne : i ≠ index := fun heq => hindex (heq ▸ hi)
        obtain ⟨hplan, hidle, hmissing⟩ := hrest i hi
        exact ⟨hplan, (hget i hne).trans hidle, hhave ▸ hmissing⟩

lemma nudge_spec {l : List (ℕ × String)} (hg : Good ps had s done) :
    (nudge ps l s).Meets ps (Good ps had) done := by
  induction l generalizing s done with
  | nil => exact hg
  | cons x rest ih =>
    obtain ⟨index, peerId⟩ := x
    unfold nudge
    split
    · refine ⟨trivial, fun (out : SendOutcome) _ => ⟨trivial, fun (now : ℕ) _ => ?_⟩⟩
      have hg' := (hg.snoc ⟨.send peerId (.request ⟨ps.plan.downloadId, index⟩) false, out⟩).snoc
        ⟨.now, now⟩
      have htick := (hg.inv.touch index now).tick index peerId
      dsimp only
      generalize (s.touch index now).tick index peerId = out' at htick ⊢
      obtain ⟨r, t⟩ := out'
      rcases htick with ⟨e, rfl, hspent⟩ | ⟨rfl, hinv, hhave⟩
      · exact meets_fail (.spent index hspent)
      · exact ih (hg'.keep hinv (hhave.trans (Receiver.touch_fields index now s).2))
    · exact ih hg

end Requests

/-! ### Inbound frames -/

section Frames

open Step

variable {done : List ActRecord} {s : Receiver} {had : List ℕ} {peerId : String}

/-- What `handle_chunk` leaves behind. -/
def Handled (ps : RunParams) (had : List ℕ) : HandleOutcome × Receiver → List ActRecord → Prop
  | (.verified index _, s), done =>
    Good ps had s done ∧ s.inFlight.get index = none ∧ Stored ps done index
  | (.nakTrigger index peerId, s), done => Good ps had s done ∧ s.inFlightAt index peerId = true
  | (.duplicate, s), done => Good ps had s done
  | (.peerMismatch _, s), done => Good ps had s done

lemma sampleRtt_spec {requestedAt index : ℕ} (hg : Good ps had s done)
    (hidle : s.inFlight.get index = none) :
    (sampleRtt peerId requestedAt s).Meets ps
      (fun t done' => Good ps had t done' ∧ t.inFlight.get index = none ∧ done <+: done') done := by
  refine ⟨trivial, fun (arrived : ℕ) _ => ⟨trivial, fun (sampledAt : ℕ) _ =>
    ⟨trivial, fun (now : ℕ) _ => ?_⟩⟩⟩
  refine ⟨(((hg.snoc _).snoc _).snoc _).keep (hg.inv.update fun h => ?_) rfl, hidle, ?_⟩
  · unfold SourceHandle.demoteByRtt
    split
    · exact ⟨rfl, rfl⟩
    · split <;> exact ⟨rfl, rfl⟩
  · simp [Automaton.past, List.append_assoc]

/-- A call that marks a chunk verified either updates the row or finds it so. -/
lemma sat_markChunkVerified (id : String) (index : ℕ) (sha256 : String) :
    (markChunkVerified id index sha256).Sat (.past (fun _ _ => True) fun _ _ => True)
      (fun r done => r = .ok () → Marked id index sha256 (done.map storeRecord)) [] := by
  have update : ∀ g, (Call.query (.setVerified id index) fun _ =>
      Call.query (.refresh id) fun _ => Call.done ()).Sat
        (.past (fun _ _ => True) fun _ _ => True)
        (fun r done => r = .ok () → Marked id index sha256 (done.map storeRecord)) g := by
    refine fun g => ⟨trivial, fun (r : Except String Unit) _ => ?_⟩
    cases r with
    | error e => exact fun h => by cases h
    | ok u =>
      refine ⟨trivial, fun (r : Except String Unit) _ => ?_⟩
      cases r with
      | error e => exact fun h => by cases h
      | ok u =>
        refine fun _ => .inl ?_
        simp [Automaton.past, storeRecord]
  unfold markChunkVerified
  refine ⟨trivial, fun (r : Except String ℕ) _ => ?_⟩
  cases r with
  | error e => exact fun h => by cases h
  | ok n =>
    dsimp only
    split
    · exact fun h => by cases h
    refine ⟨trivial, fun (r : Except String (Option ChunkRow)) _ => ?_⟩
    cases r with
    | error e => exact fun h => by cases h
    | ok existing =>
      cases existing with
      | none => exact update _
      | some row =>
        dsimp only
        split
        · rename_i hrow
          refine fun _ => .inr ⟨row, hrow.1, hrow.2, ?_⟩
          simp [Automaton.past, storeRecord]
        · split
          · exact fun h => by cases h
          · exact update _

/-- A good chunk is stored, and only then acknowledged. -/
lemma acceptChunk_spec {requestedAt index : ℕ} {expected : PlannedChunk} {bytes : Bytes}
    (hg : Good ps had s done) (hl : ps.plan.Layout) (hget : ps.plan.chunks[index]? = some expected)
    (hat : s.inFlightAt index peerId = true) (hlen : bytes.length = expected.length)
    (hsha : ps.sha256Hex bytes = expected.sha256) :
    (acceptChunk ps peerId requestedAt expected bytes s).Meets ps (Handled ps had) done := by
  have hindex := hl.index index expected hget
  unfold acceptChunk
  rw [hindex]
  refine ⟨trivial, fun (written : Except String Unit) _ => ?_⟩
  cases written with
  | error e =>
    exact meets_fail (.disk _ (List.mem_append_right _ (List.mem_singleton_self _)) ⟨e, rfl⟩)
  | ok u =>
    have hlift := sat_liftStore ps
      (done ++ [(⟨.writePart index bytes, (.ok () : Except String Unit)⟩ : ActRecord)])
      (sat_markChunkVerified ps.plan.downloadId index expected.sha256)
    rw [List.map_nil, List.append_nil] at hlift
    refine Prog.Sat.bind hlift fun marked done' hmarked => ?_
    obtain ⟨g, hmark, rfl⟩ := hmarked
    cases marked with
    | error e => exact meets_fail (.storage _ rfl)
    | ok u =>
      have hstored : Stored ps ((done ++
          [(⟨.writePart index bytes, (.ok () : Except String Unit)⟩ : ActRecord)]) ++
            g.map storeRecord) index := by
        refine ⟨⟨expected, hget, bytes, hlen, hsha, by simp⟩, expected, hget, ?_⟩
        rcases hmark rfl with h | ⟨row, hstate, hrow, h⟩
        · exact .inl (List.mem_append_right _ h)
        · exact .inr ⟨row, hstate, hrow, List.mem_append_right _ h⟩
      have hgood : Good ps had (s.answered index peerId) ((done ++
          [(⟨.writePart index bytes, (.ok () : Except String Unit)⟩ : ActRecord)]) ++
            g.map storeRecord) :=
        ((hg.snoc _).mono (List.prefix_append _ _)).keep (hg.inv.answered hat) rfl
      have hidle : (s.answered index peerId).inFlight.get index = none := by
        simp [Receiver.answered, AList.get_erase]
      have hmay : May ps _ (.send peerId (.ack ⟨ps.plan.downloadId, index⟩) false) := .inl hstored
      refine (meets_send hmay).andThen fun t done₁ ⟨ht, hpre⟩ => ?_
      subst ht
      refine (sampleRtt_spec (hgood.mono hpre) hidle).andThen fun t done₂ ⟨hg', hidle', hpre'⟩ => ?_
      exact ⟨hg', hidle', (hstored.mono hpre).mono hpre'⟩

lemma sendNak_spec {index : ℕ} (hg : Good ps had s done) :
    (sendNak ps peerId index s).Meets ps (Good ps had) done := by
  have hmay : ∀ f, May ps done (.send peerId (.nak f) false) := fun _ => trivial
  refine (meets_send (hmay _)).mono fun r done' hr => ?_
  cases r with
  | error e => exact hr
  | ok t =>
    obtain ⟨rfl, hpre⟩ := hr
    exact hg.mono hpre

lemma find_chunk (hl : ps.plan.Layout) {index : ℕ} (hlt : index < ps.plan.chunks.length) :
    ∃ chunk, ps.plan.chunks[index]? = some chunk ∧
      (ps.plan.chunks.find? fun c => c.index == index) = some chunk := by
  obtain ⟨chunk, hget⟩ : ∃ chunk, ps.plan.chunks[index]? = some chunk :=
    ⟨_, List.getElem?_eq_getElem hlt⟩
  refine ⟨chunk, hget, ?_⟩
  cases hfind : ps.plan.chunks.find? fun c => c.index == index with
  | none =>
    have := List.find?_eq_none.1 hfind chunk (List.mem_of_getElem? hget)
    simp [hl.index index chunk hget] at this
  | some chunk' =>
    obtain ⟨j, hj⟩ := List.getElem?_of_mem (List.mem_of_find?_eq_some hfind)
    have hindex : chunk'.index = index := by simpa using List.find?_some hfind
    rw [hl.index j chunk' hj] at hindex
    rw [hindex, hget] at hj
    exact hj.symm

lemma handleChunk_spec {chunk : ChunkFrame} (hg : Good ps had s done) (hl : ps.plan.Layout)
    (hlast : done.getLast? = some ⟨.await s, Inbound.frame peerId (.chunk chunk)⟩) :
    (handleChunk ps peerId chunk s).Meets ps (Handled ps had) done := by
  have hunasked (hat : s.inFlightAt chunk.chunkIndex peerId = false) :
      May ps done (.send peerId (.ack ⟨ps.plan.downloadId, chunk.chunkIndex⟩) false) :=
    .inr ⟨s, chunk, rfl, hat, hlast⟩
  unfold handleChunk
  cases hget : s.inFlight.get chunk.chunkIndex with
  | none =>
    have hat : s.inFlightAt chunk.chunkIndex peerId = false := by simp [Receiver.inFlightAt, hget]
    refine (meets_send (hunasked hat)).andThen fun t done' h => ?_
    obtain ⟨rfl, hpre⟩ := h
    exact hg.mono hpre
  | some record =>
    dsimp only
    split
    · rename_i hne
      have hat : s.inFlightAt chunk.chunkIndex peerId = false := by
        simpa [Receiver.inFlightAt, hget] using hne
      refine (meets_send (hunasked hat)).andThen fun t done' h => ?_
      obtain ⟨rfl, hpre⟩ := h
      exact hg.mono hpre
    · rename_i heq
      have hat : s.inFlightAt chunk.chunkIndex peerId = true :=
        Receiver.inFlightAt_iff.2 ⟨record, hget, not_not.1 heq⟩
      obtain ⟨expected, hexpected, hfind⟩ := find_chunk hl (hg.inv.planned _ record hget)
      rw [hfind]
      dsimp only
      cases ps.base64Decode chunk.bytesB64 with
      | none => exact ⟨hg, hat⟩
      | some bytes =>
        dsimp only
        split
        · exact ⟨hg, hat⟩
        split
        · exact ⟨hg, hat⟩
        · exact acceptChunk_spec hg hl hexpected hat (not_not.1 ‹_›) (not_not.1 ‹_›)

lemma onChunk_spec {chunk : ChunkFrame} (hg : Good ps had s done) (hl : ps.plan.Layout)
    (hlast : done.getLast? = some ⟨.await s, Inbound.frame peerId (.chunk chunk)⟩) :
    (onChunk ps peerId chunk s).Meets ps (Good ps had) done := by
  refine (handleChunk_spec hg hl hlast).andThen fun out done' hout => ?_
  obtain ⟨outcome, t⟩ := out
  cases outcome with
  | verified index peer =>
    obtain ⟨hgt, hidle, hstored⟩ := hout
    have hgood : Good ps had { t with haveSet := insert index t.haveSet } done' := by
      refine ⟨hgt.inv.verified hidle, hgt.answered,
        fun i hi => Finset.mem_insert_of_mem (hgt.justified.keeps i hi), fun i hi => ?_⟩
      rcases Finset.mem_insert.1 hi with rfl | hi
      · exact .inr hstored
      · exact hgt.justified.stored i hi
    dsimp only
    split
    · exact sat_bind_liftStore fun _ _ hpre => hgood.mono hpre
    · exact hgood
  | duplicate => exact hout
  | peerMismatch actual => exact hout
  | nakTrigger index peer =>
    obtain ⟨hgt, hat⟩ := hout
    obtain ⟨record, hget, rfl⟩ := Receiver.inFlightAt_iff.1 hat
    have hnak := hgt.inv.applyNak index record.peerId
    dsimp only
    generalize t.applyNak index record.peerId = out' at hnak ⊢
    obtain ⟨r, u⟩ := out'
    rcases hnak with ⟨e, rfl, hspent⟩ | ⟨rfl, hinv, hhave, hflight⟩
    · exact meets_fail (.spent index hspent)
    · have hnames : ∀ record', u.inFlight.get index = some record' →
          record'.peerId = record.peerId := fun record' hr => by
        dsimp only at hflight
        rcases hflight with h | h
        · rw [h, hget] at hr
          exact congrArg _ (Option.some.inj hr).symm
        · rw [h, AList.get_erase, if_pos rfl] at hr
          cases hr
      obtain ⟨hinv', hhave'⟩ := hinv.requeue hnames
      have hgood := hgt.keep hinv' (hhave'.trans hhave)
      dsimp only
      split
      · exact sendNak_spec hgood
      · exact hgood

lemma onFrame_spec {frame : Frame} (hg : Good ps had s done) (hl : ps.plan.Layout)
    (hlast : done.getLast? = some ⟨.await s, Inbound.frame peerId frame⟩) :
    (onFrame ps peerId frame s).Meets ps (Good ps had) done := by
  have hmem : (⟨.await s, Inbound.frame peerId frame⟩ : ActRecord) ∈ done :=
    List.mem_of_getLast? hlast
  unfold onFrame
  cases frame with
  | chunk chunk => exact onChunk_spec hg hl hlast
  | cancel f =>
    refine ⟨trivial, fun _ _ => sat_bind_liftStore fun _ done' hpre => ?_⟩
    have hmem' := hpre.subset (List.mem_append_left _ hmem)
    exact ⟨fun h => (by cases h), fun _ => .sourceQuits _ hmem' ⟨peerId, _, rfl, .inl rfl⟩⟩
  | error f =>
    refine sat_bind_liftStore fun _ done' hpre => ?_
    exact meets_fail (.sourceQuits _ (hpre.subset hmem) ⟨peerId, _, rfl, .inr rfl⟩)
  | nak nak =>
    have hnak := hg.inv.applyNak nak.chunkIndex peerId
    dsimp only
    generalize s.applyNak nak.chunkIndex peerId = out at hnak ⊢
    obtain ⟨r, t⟩ := out
    rcases hnak with ⟨e, rfl, hspent⟩ | ⟨rfl, hinv, hhave, -⟩
    · exact meets_fail (.spent _ hspent)
    · exact sendNak_spec (hg.keep hinv hhave)
  | ack f => exact hg
  | hello f => exact hg
  | offer f => exact hg
  | request f => exact hg

end Frames

/-! ### The loop -/

section Loop

open Step

variable {done : List ActRecord} {s : Receiver} {had : List ℕ}

lemma prepareRound_spec (hg : Good ps had s done) (hl : ps.plan.Layout) :
    (prepareRound ps s).Meets ps (Good ps had) done := by
  refine ⟨trivial, fun (now : ℕ) _ => ?_⟩
  have hrecover : Good ps had { s with sources := s.sources.map (.recover now) }
      (done ++ [(⟨.now, now⟩ : ActRecord)]) := (hg.snoc _).keep (hg.inv.recover now) rfl
  refine Step.Meets.andThen (P := Good ps had) ?_ fun t done' hgt => ?_
  · split
    · rename_i hroom
      refine refill_spec hrecover (fun i hi => ?_) (Receiver.nodup_pending hl) hroom
      obtain ⟨hplan, hidle, hmissing⟩ := (Receiver.mem_pending hl).1 hi
      exact ⟨hplan, hidle, hmissing⟩
    · exact hrecover
  · exact ⟨trivial, fun (now : ℕ) _ => ⟨trivial, fun _ _ => nudge_spec ((hgt.snoc _).snoc _)⟩⟩

lemma awaitInbound_spec (hg : Good ps had s done) (hl : ps.plan.Layout) :
    (awaitInbound ps s).Meets ps (Good ps had) done := by
  refine ⟨⟨had, hg⟩, fun (inbound : Inbound) _ => ?_⟩
  have hmem : (⟨.await s, inbound⟩ : ActRecord) ∈ done ++ [(⟨.await s, inbound⟩ : ActRecord)] := by
    simp
  cases inbound with
  | cancelled => exact meets_fail (.cancelled _ hmem rfl)
  | tick => exact hg.snoc _
  | gone => exact meets_fail (.sourcesGone _ hmem rfl)
  | frame peerId f => exact onFrame_spec (hg.snoc _) hl (by simp [Automaton.past])

/-- The loop ends when it has as many chunks as the plan. -/
def Loaded (ps : RunParams) (had : List ℕ) : Option Receiver → List ActRecord → Prop
  | none, _ => True
  | some s, done => Good ps had s done ∧ asU32 ps.plan.chunks.length ≤ asU32 s.haveSet.card

lemma loop_spec (hl : ps.plan.Layout) (fuel : ℕ) (hg : Good ps had s done) :
    (loop ps fuel s).Meets ps (Loaded ps had) done := by
  induction fuel generalizing s done with
  | zero => trivial
  | succ fuel ih =>
    refine ⟨⟨had, hg⟩, fun _ _ => ?_⟩
    split
    · exact ⟨hg.snoc _, ‹_›⟩
    · exact (prepareRound_spec (hg.snoc _) hl).andThen fun t done' hgt =>
        (awaitInbound_spec hgt hl).andThen fun u done'' hgu => ih hgu

/-- The loop of a run that has just been told what is complete. -/
lemma loop_spec_begun {l : List ActRecord} (hl : ps.plan.Layout) (fuel : ℕ)
    (hdone : done = l ++ [⟨.completedChunkIndices, (.ok had : Except String (List ℕ))⟩])
    (hg : Good ps had s done) :
    (loop ps fuel s).Meets ps
    (fun out done' => ∀ t, out = some t → Filled ps had done' t) done := by
  cases fuel with
  | zero => exact fun t ht => by cases ht
  | succ fuel =>
    obtain ⟨hmay, hrest⟩ := loop_spec hl (fuel + 1) hg
    refine ⟨hmay, fun (r : Unit) hr => (hrest r hr).grows.mono fun out done' ⟨hout, hpre⟩ => ?_⟩
    rcases out with e | out
    · exact hout
    rintro t rfl
    obtain ⟨l', rfl⟩ := hpre
    refine ⟨⟨l, s, l', ?_⟩, hout.1, hout.2⟩
    simp [Automaton.past, hdone]

/-- **What a filled loop has**: when it began with chunks of the plan only, or with all of them, it
has every planned chunk. -/
lemma Filled.all {t : Receiver} (h : Filled ps had done t) (hl : ps.plan.Layout)
    (hhad : (∀ i ∈ had, i < ps.plan.chunks.length) ∨ ∀ i < ps.plan.chunks.length, i ∈ had) :
    ∀ i < ps.plan.chunks.length, i ∈ t.haveSet := by
  rcases hhad with hhad | hall
  swap
  · exact fun i hi => h.good.justified.keeps i (hall i hi)
  have hsub : t.haveSet ⊆ Finset.range ps.plan.chunks.length := fun i hi => by
    rcases h.good.justified.stored i hi with hmem | hstored
    · exact Finset.mem_range.2 (hhad i hmem)
    · exact Finset.mem_range.2 hstored.lt
  have hle : t.haveSet.card ≤ ps.plan.chunks.length := by
    simpa using Finset.card_le_card hsub
  have hcount := hl.count
  have hcard := h.enough
  have heq : t.haveSet = Finset.range ps.plan.chunks.length := by
    refine Finset.eq_of_subset_of_card_le hsub ?_
    rw [asU32, asU32, Nat.mod_eq_of_lt hcount, Nat.mod_eq_of_lt (by omega)] at hcard
    simpa using hcard
  intro i hi
  rw [heq]
  exact Finset.mem_range.2 hi

end Loop

end Locast.Transfer
