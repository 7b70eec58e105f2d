import Locast.Lib.Trace
import Locast.Transfer.Codec
import Locast.Transfer.MultiSourceSpec

/-!
# The frames that a transfer builds

Which frames the two halves of the protocol send, and which of them the codec carries to the other
side: every `Request`, `Chunk` and `Ack` of a plan whose download id is well formed, and a `Hello`
or an `Offer` as long as its text fits.
-/

namespace Locast.Transfer

open Locast.Lib JsonText

/-! ### Checked fields -/

/-- What the checks of an id let through is plain. -/
lemma plain_of_hex {c : Char} (h : (c.isDigit || ('a' ≤ c && c ≤ 'f') || c == '-') = true) :
    Plain c := by
  have hdigit : c.isDigit = true → 48 ≤ c.toNat ∧ c.toNat ≤ 57 := fun hd => by
    rw [Char.isDigit, Bool.and_eq_true, decide_eq_true_eq, decide_eq_true_eq] at hd
    exact ⟨UInt32.le_iff_toNat_le.1 hd.1, UInt32.le_iff_toNat_le.1 hd.2⟩
  have hletter : 'a' ≤ c → c ≤ 'f' → 97 ≤ c.toNat ∧ c.toNat ≤ 102 := fun h₁ h₂ =>
    ⟨UInt32.le_iff_toNat_le.1 h₁, UInt32.le_iff_toNat_le.1 h₂⟩
  have hrange : 45 ≤ c.toNat ∧ c.toNat ≤ 57 ∨ 97 ≤ c.toNat ∧ c.toNat ≤ 102 := by
    simp only [Bool.or_eq_true, Bool.and_eq_true, decide_eq_true_eq, beq_iff_eq] at h
    rcases h with (hd | ⟨h₁, h₂⟩) | rfl
    · exact .inl ⟨by have := (hdigit hd).1; omega, (hdigit hd).2⟩
    · exact .inr (hletter h₁ h₂)
    · exact .inl (by decide)
  refine ⟨by omega, by omega, ?_, ?_⟩
  · rintro rfl
    revert hrange
    decide
  · rintro rfl
    revert hrange
    decide

lemma textSize_of_hex {s : String} (h : is64LowercaseHex s = true) : textSize s = 64 := by
  unfold is64LowercaseHex at h
  rw [Bool.and_eq_true, beq_iff_eq, List.all_eq_true] at h
  rw [textSize_of_plain fun c hc => plain_of_hex (by simp [h.2 c hc]), h.1]

lemma textSize_of_downloadId {s : String} (h : checkDownloadId s = .ok ()) : textSize s ≤ 64 := by
  unfold checkDownloadId at h
  split at h
  · cases h
  split at h
  · rename_i hsize hall
    rw [List.all_eq_true] at hall
    rw [textSize_of_plain fun c hc => plain_of_hex (hall c hc)]
    omega
  · cases h

lemma plain_base64 (bytes : Bytes) : ∀ c ∈ Base64.encodeBytes bytes, Plain c := by
  have hdigit : ∀ v < 64, Plain (Base64.digit v) := by decide
  have hpad : Plain '=' := by decide
  fun_induction Base64.encodeBytes bytes with
  | case1 => simp
  | case2 a =>
    have ha := a.toNat_lt
    simp only [List.forall_mem_cons, hpad, List.not_mem_nil, false_implies, implies_true, and_true]
    exact ⟨hdigit _ (by omega), hdigit _ (by omega)⟩
  | case3 a b =>
    have ha := a.toNat_lt
    have hb := b.toNat_lt
    simp only [List.forall_mem_cons, hpad, List.not_mem_nil, false_implies, implies_true, and_true]
    exact ⟨hdigit _ (by omega), hdigit _ (by omega), hdigit _ (by omega)⟩
  | case4 a b c rest ih =>
    have ha := a.toNat_lt
    have hb := b.toNat_lt
    have hc := c.toNat_lt
    simp only [List.forall_mem_cons]
    exact ⟨hdigit _ (by omega), hdigit _ (by omega), hdigit _ (by omega), hdigit _ (by omega), ih⟩

lemma textSize_base64 (bytes : Bytes) :
    textSize (Base64.encode bytes) = (bytes.length + 2) / 3 * 4 := by
  rw [textSize_of_plain, Base64.encode_size]
  rw [Base64.encode, String.toList_ofList]
  exact plain_base64 bytes

lemma check64_of_hex {s : String} (h : is64LowercaseHex s = true) :
    check64LowercaseHex s = .ok () :=
  if_pos h

/-! ### What the two sides send -/

/-- What the receiver of a plan sends. -/
inductive ReceiverFrame (ps : RunParams) : Frame → Prop
  | hello (had : List ℕ) : ReceiverFrame ps (.hello ⟨ps.localPeerId, ps.plan.downloadId,
      ps.plan.mediaId, ps.plan.manifestVersion, had⟩)
  | request (index : ℕ) : ReceiverFrame ps (.request ⟨ps.plan.downloadId, index⟩)
  | ack (index : ℕ) : ReceiverFrame ps (.ack ⟨ps.plan.downloadId, index⟩)
  | nak (index : ℕ) : ReceiverFrame ps (.nak ⟨ps.plan.downloadId, index,
      ((ps.plan.chunks.find? fun c => c.index == index).map PlannedChunk.sha256).getD ""⟩)

/-- What the sender of a plan sends. -/
inductive SenderFrame (prims : Primitives) (plan : DownloadPlan) (filename : String) : Frame → Prop
  | offer : SenderFrame prims plan filename (.offer ⟨plan.source.peerId, plan.downloadId,
      plan.mediaId, plan.manifestVersion, plan.sizeBytes, chunkSizeBytes,
      plan.sourceMeta.totalChunks, plan.sha256, plan.blake3, filename⟩)
  | ack (index : ℕ) : SenderFrame prims plan filename (.ack ⟨plan.downloadId, index⟩)
  | chunk (c : PlannedChunk) (bytes : Bytes) (hc : c ∈ plan.chunks)
    (hlen : bytes.length = c.length) :
    SenderFrame prims plan filename (.chunk ⟨plan.downloadId, c.index, prims.base64Encode bytes,
      c.sha256⟩)

/-- A run sends only such frames. -/
def Act.Builds (ps : RunParams) : Act → Prop
  | .send _ frame _ => ReceiverFrame ps frame
  | _ => True

/-- It does so before the file is put together, which is done with effects of its own. -/
def Act.Moves (ps : RunParams) : Act → Prop
  | .send _ frame _ => ReceiverFrame ps frame
  | .createStaging | .readPart _ | .syncStaging | .removeStaging | .rereadStaging
  | .completeDownload => False
  | _ => True

lemma Act.Moves.builds {ps : RunParams} {a : Act} (h : a.Moves ps) : a.Builds ps := by
  cases a with
  | send peerId frame checked => exact h
  | _ => trivial

/-- What a sender sends, and only such frames. -/
def SenderEffect.Builds (prims : Primitives) (plan : DownloadPlan) (filename : String) :
    SenderEffect → Prop
  | .send frame => SenderFrame prims plan filename frame
  | _ => True

/-- `read_chunk_at` reads a whole chunk or fails. -/
def SenderEffect.Answers : (e : SenderEffect) → e.Resp → Prop
  | .readFile _ length, (r : Except String Bytes) => ∀ bytes, r = .ok bytes → bytes.length = length
  | _, _ => True

/-! ### The sender -/

section Sender

variable {prims : Primitives} {plan : DownloadPlan} {filename : String} {α : Type}

/-- A part of a session that sends only such frames. -/
def SenderProg.OnlyBuilds (prims : Primitives) (plan : DownloadPlan) (filename : String)
    (p : SenderProg α) : Prop :=
  p.Sat (.only SenderEffect.Answers (SenderEffect.Builds prims plan filename)) (fun _ _ => True) ()

lemma sends_sendFrame {frame : Frame} {k : SenderProg α}
    (hf : SenderFrame prims plan filename frame) (hk : k.OnlyBuilds prims plan filename) :
    (SenderSession.sendFrame frame k).OnlyBuilds prims plan filename := by
  refine ⟨hf, fun (out : SendOutcome) _ => ?_⟩
  cases out with
  | sent => exact hk
  | cancelled => trivial
  | malformed e => trivial
  | failed e => cases e <;> trivial

lemma sends_sendChunk {index : ℕ} {k : SenderProg α} (hk : k.OnlyBuilds prims plan filename) :
    (SenderSession.sendChunk prims plan index k).OnlyBuilds prims plan filename := by
  unfold SenderSession.sendChunk
  split
  · trivial
  · rename_i chunk hfind
    refine ⟨trivial, fun (r : Except String Bytes) hr => ?_⟩
    cases r with
    | error e => trivial
    | ok bytes =>
      dsimp only
      split
      · exact sends_sendFrame (.chunk chunk bytes (List.mem_of_find?_eq_some hfind) (hr bytes rfl))
          hk
      · trivial

lemma sends_loop (fuel : ℕ) (had : Finset ℕ) :
    (SenderSession.loop prims plan fuel had).OnlyBuilds prims plan filename := by
  induction fuel generalizing had with
  | zero => trivial
  | succ fuel ih =>
    refine ⟨trivial, fun (out : RecvOutcome) _ => ?_⟩
    dsimp only
    split
    · trivial
    · trivial
    · trivial
    · trivial
    · split
      · split
        · exact sends_sendFrame (.ack _) (ih _)
        · exact sends_sendChunk (ih _)
      · split
        · trivial
        · split
          · trivial
          · exact ih _
      · exact sends_sendChunk (ih _)
      · trivial
      · trivial
      · trivial

/-- **A sender sends only the frames of its plan.** -/
theorem sends_runAfterHello (hello : HelloFrame) (fuel : ℕ) :
    (SenderSession.runAfterHello prims plan hello filename fuel).OnlyBuilds prims plan
      filename := by
  refine sends_sendFrame .offer (Prog.Sat.bind (sends_loop fuel _) fun r _ _ => ?_)
  split <;> trivial

/-- **A session sends nothing before a `Hello` about its plan**, and goes on from it. -/
theorem run_sends {fuel : ℕ} {tr : List ((e : SenderEffect) × e.Resp)}
    {q : SenderProg (Option Unit)} (hdoes : (SenderSession.run prims plan filename fuel).Does tr q)
    {frame : Frame} {out : SendOutcome}
    (hmem : (⟨.send frame, out⟩ : (e : SenderEffect) × e.Resp) ∈ tr) :
    ∃ hello rest, tr = ⟨.awaitHello, RecvOutcome.frame (.hello hello)⟩ :: rest ∧
      hello.peerId = plan.source.peerId ∧ hello.downloadId = plan.downloadId ∧
      hello.mediaId = plan.mediaId ∧ hello.manifestVersion = plan.manifestVersion ∧
      (SenderSession.runAfterHello prims plan hello filename fuel).Does rest q := by
  cases hdoes with
  | nil => cases hmem
  | @cons _ _ r rest _ hrest =>
    have hlater : (⟨.send frame, out⟩ : (e : SenderEffect) × e.Resp) ∈ rest := by
      rcases List.mem_cons.1 hmem with h | h
      · cases h
      · exact h
    have hret {r : Except SessionError (Option Unit)}
        (h : (Prog.ret r : SenderProg (Option Unit)).Does rest q) : False := by
      cases h
      cases hlater
    change RecvOutcome at r
    cases r with
    | undecodable | cancelled | timedOut | failed | ended => exact (hret hrest).elim
    | frame f =>
      cases f with
      | hello hello =>
        dsimp only [SenderSession.received] at hrest
        split_ifs at hrest with hpeer hbinding
        · exact (hret hrest).elim
        · exact (hret hrest).elim
        · rw [not_not] at hpeer
          rw [not_or, not_or, not_not, not_not, not_not] at hbinding
          exact ⟨hello, rest, rfl, hpeer, hbinding.1, hbinding.2.1, hbinding.2.2, hrest⟩
      | _ => exact (hret hrest).elim

end Sender

/-! ### The receiver -/

section Receiver

open Step

variable {ps : RunParams} {ok : Act → Prop} {α β : Type}

/-- A part of a run whose effects are all of a kind. -/
def Only (ok : Act → Prop) (p : Prog Act Act.Resp α) : Prop :=
  p.Sat (.only (fun _ _ => True) ok) (fun _ _ => True) ()

lemma Only.bind {m : Prog Act Act.Resp α} {f : α → Prog Act Act.Resp β} (hm : Only ok m)
    (hf : ∀ a, Only ok (f a)) : Only ok (Prog.bind m f) :=
  Prog.Sat.bind hm fun a _ _ => hf a

lemma Only.builds {m : Prog Act Act.Resp α} (hm : Only (Act.Moves ps) m) :
    Only (Act.Builds ps) m := by
  induction m with
  | ret a => trivial
  | op e k ih => exact ⟨hm.1.builds, fun r hr => ih r (hm.2 r hr)⟩

lemma Only.andThen {m : Step α} {f : α → Step β} (hm : Only ok m)
    (hf : ∀ a, Only ok (f a)) : Only ok (m.andThen f) := by
  refine hm.bind fun r => ?_
  cases r with
  | error e => trivial
  | ok a => exact hf a

lemma sends_next {a : α} : Only (Act.Moves ps) (next a) := trivial

lemma sends_liftStore (call : Prog Effect Effect.Resp α) :
    Only (Act.Moves ps) (liftStore call) := by
  induction call with
  | ret a => trivial
  | op e k ih => exact ⟨trivial, fun r _ => ih r⟩

lemma sends_sendTo {peerId : String} {frame : Frame} {s : Receiver} (hf : ReceiverFrame ps frame) :
    Only (Act.Moves ps) (sendTo peerId frame s) := by
  unfold sendTo
  split
  · exact ⟨hf, fun _ _ => trivial⟩
  · trivial

lemma sends_dispatch (h : SourceHandle) (index : ℕ) (s : Receiver) :
    Only (Act.Moves ps) (dispatch ps h index s) := by
  refine ⟨trivial, fun (granted : Bool) _ => ?_⟩
  cases granted with
  | false => trivial
  | true =>
    refine ⟨trivial, fun (now : ℕ) _ => ⟨.request _, fun (out : SendOutcome) _ => ?_⟩⟩
    dsimp only
    split <;> trivial

lemma sends_refill (l : List ℕ) (s : Receiver) : Only (Act.Moves ps) (refill ps l s) := by
  induction l generalizing s with
  | nil => trivial
  | cons index rest ih =>
    unfold refill
    split
    · trivial
    refine ⟨trivial, fun (now : ℕ) _ => ?_⟩
    dsimp only
    split
    · split
      · trivial
      · exact ih _
    · refine (sends_dispatch _ _ _).andThen fun t => ?_
      split
      · trivial
      · exact ih _

lemma sends_nudge (l : List (ℕ × String)) (s : Receiver) : Only (Act.Moves ps) (nudge ps l s) := by
  induction l generalizing s with
  | nil => trivial
  | cons x rest ih =>
    obtain ⟨index, peerId⟩ := x
    unfold nudge
    split
    · refine ⟨.request _, fun (out : SendOutcome) _ => ⟨trivial, fun (now : ℕ) _ => ?_⟩⟩
      dsimp only
      split
      · trivial
      · exact ih _
    · exact ih _

lemma sends_handleChunk (peerId : String) (chunk : ChunkFrame) (s : Receiver) :
    Only (Act.Moves ps) (handleChunk ps peerId chunk s) := by
  unfold handleChunk
  split
  · exact (sends_sendTo (.ack _)).andThen fun _ => trivial
  split
  · exact (sends_sendTo (.ack _)).andThen fun _ => trivial
  split
  · trivial
  split
  · trivial
  split
  · trivial
  split
  · trivial
  refine ⟨trivial, fun (written : Except String Unit) _ => ?_⟩
  cases written with
  | error e => trivial
  | ok u =>
    refine (sends_liftStore _).bind fun marked => ?_
    cases marked with
    | error e => trivial
    | ok u =>
      refine (sends_sendTo (.ack _)).andThen fun t => Only.andThen ?_ fun _ => trivial
      exact ⟨trivial, fun _ _ => ⟨trivial, fun _ _ => ⟨trivial, fun _ _ => trivial⟩⟩⟩

lemma sends_onFrame (peerId : String) (frame : Frame) (s : Receiver) :
    Only (Act.Moves ps) (onFrame ps peerId frame s) := by
  unfold onFrame
  cases frame with
  | chunk chunk =>
    refine (sends_handleChunk peerId chunk s).andThen fun out => ?_
    dsimp only
    split
    · split
      · exact (sends_liftStore _).bind fun _ => trivial
      · trivial
    · trivial
    · split
      · trivial
      · split
        · exact sends_sendTo (.nak _)
        · trivial
    · trivial
  | cancel f => exact ⟨trivial, fun _ _ => (sends_liftStore _).bind fun _ => trivial⟩
  | error f => exact (sends_liftStore _).bind fun _ => trivial
  | nak nak =>
    dsimp only
    split
    · trivial
    · exact sends_sendTo (.nak _)
  | ack f => trivial
  | hello f => trivial
  | offer f => trivial
  | request f => trivial

lemma sends_loop_receiver (fuel : ℕ) (s : Receiver) : Only (Act.Moves ps) (loop ps fuel s) := by
  induction fuel generalizing s with
  | zero => trivial
  | succ fuel ih =>
    refine ⟨trivial, fun _ _ => ?_⟩
    dsimp only
    split
    · trivial
    refine Only.andThen ⟨trivial, fun (now : ℕ) _ => Only.andThen ?_ fun t => ?_⟩ fun t =>
      Only.andThen ⟨trivial, fun (inbound : Inbound) _ => ?_⟩ ih
    · split
      · exact sends_refill _ _
      · trivial
    · exact ⟨trivial, fun (now : ℕ) _ => ⟨trivial, fun _ _ => sends_nudge _ _⟩⟩
    · cases inbound with
      | cancelled => trivial
      | tick => trivial
      | gone => trivial
      | frame peerId f => exact sends_onFrame peerId f _

lemma sends_moveTo (target : DownloadState) (s : Receiver) :
    Only (Act.Moves ps) (moveTo ps target s) := by
  refine (sends_liftStore _).bind fun r => ?_
  cases r with
  | error e => trivial
  | ok u => exact ⟨trivial, fun _ _ => trivial⟩

lemma sends_fetchedState {k : Option DownloadState → Prog Act Act.Resp α}
    (hk : ∀ state, Only (Act.Moves ps) (k state)) : Only (Act.Moves ps) (fetchedState ps k) := by
  refine ⟨trivial, fun (r : Except String (Option DownloadState)) _ => ?_⟩
  cases r with
  | error e => exact hk _
  | ok state => exact hk _

lemma sends_sendHellos (had : List ℕ) (s : Receiver) (sources : List SourceHandle) :
    Only (Act.Moves ps) (sendHellos (.hello ⟨ps.localPeerId, ps.plan.downloadId, ps.plan.mediaId,
      ps.plan.manifestVersion, had⟩) s sources) := by
  induction sources with
  | nil => trivial
  | cons source rest ih =>
    refine ⟨.hello had, fun (out : SendOutcome) _ => ?_⟩
    cases out with
    | sent => exact ih
    | cancelled => trivial
    | malformed e => trivial
    | failed e => trivial

lemma sends_prepare (s : Receiver) : Only (Act.Moves ps) (prepare ps s) := by
  refine Only.andThen ⟨trivial, fun _ _ => sends_fetchedState fun current => ?_⟩ fun t => ?_
  · split
    · exact (sends_moveTo _ _).andThen fun _ => sends_moveTo _ _
    · trivial
  refine ⟨trivial, fun (r : Except String (List ℕ)) _ => ?_⟩
  cases r with
  | error e => trivial
  | ok had =>
    refine (sends_sendHellos had t t.sources).andThen fun u => ?_
    refine ⟨trivial, fun (r : Except String (List ℕ)) _ => ?_⟩
    cases r <;> trivial

lemma sends_closeAll {k : Step α} (hk : Only (Act.Moves ps) k) (l : List SourceHandle) :
    Only (Act.Moves ps) (closeAll k l) := by
  induction l with
  | nil => exact hk
  | cons h rest ih => exact ⟨trivial, fun _ _ => ih⟩

lemma sends_endFailed {reason : String} {s : Receiver} {k : Step DownloadState}
    (hk : Only (Act.Moves ps) k) : Only (Act.Moves ps) (endFailed ps reason s k) := by
  refine (sends_liftStore _).bind fun r => ?_
  cases r with
  | error e => trivial
  | ok u => exact ⟨trivial, fun _ _ => sends_closeAll hk _⟩

/-- What follows the assembly. -/
def afterAssembly (ps : RunParams) (s : Receiver) : Except AssembleError Unit → Step DownloadState
  | .ok () => .op .cleanupIncomplete fun _ =>
    (moveTo ps .complete s).andThen fun s => closeAll (next .complete) s.sources
  | .error .blake3Mismatch =>
    let reason := ps.sanitizeErrorMessage "blake3 mismatch"
    Prog.bind (liftStore (setLastError ps.plan.downloadId reason)) fun r =>
      match r with
      | .error e => fail (.storage e.display) s
      | .ok () => endFailed ps reason s (next .failed)
  | .error e =>
    let reason := ps.sanitizeErrorMessage ("assemble: " ++ e.display)
    Prog.bind (liftStore (setLastError ps.plan.downloadId reason)) fun _ =>
      endFailed ps reason s (fail (.assemble e.display) s)

lemma finish_eq (ps : RunParams) (s : Receiver) : finish ps s =
    (moveTo ps .verifying s).andThen fun s =>
      Prog.bind (assembleAndFinalize ps) (afterAssembly ps s) := rfl

lemma sends_afterAssembly (s : Receiver) (r : Except AssembleError Unit) :
    Only (Act.Moves ps) (afterAssembly ps s r) := by
  unfold afterAssembly
  split
  · exact ⟨trivial, fun _ _ => (sends_moveTo _ _).andThen fun _ => sends_closeAll sends_next _⟩
  · refine (sends_liftStore _).bind fun r => ?_
    cases r with
    | error e => trivial
    | ok u => exact sends_endFailed trivial
  · exact (sends_liftStore _).bind fun _ => sends_endFailed trivial

/-- What follows the end of a run. -/
def afterRun (ps : RunParams) : Option Ending → Prog Act Act.Resp (Option Ending)
  | none => .ret none
  | some ending =>
    Prog.bind (match ending.outcome with
      | .error e => recordTerminalStateAfterError ps e
      | .ok _ => .ret ()) fun _ =>
        Prog.bind (discardScratchAfterTerminalFailure ps) fun _ => .ret (some ending)

lemma runMultiSource_eq (ps : RunParams) (fuel : ℕ) (s : Receiver) : runMultiSource ps fuel s =
    Prog.bind (runMultiSourceInner ps fuel s) (afterRun ps) := rfl

lemma sends_afterRun (out : Option Ending) : Only (Act.Moves ps) (afterRun ps out) := by
  cases out with
  | none => trivial
  | some ending =>
    refine Only.bind ?_ fun _ => Only.bind (sends_fetchedState fun state => ?_) fun _ => trivial
    · split
      · refine sends_fetchedState fun current => ?_
        split
        · trivial
        split
        · exact (sends_liftStore _).bind fun _ => ⟨trivial, fun _ _ => trivial⟩
        · exact (sends_liftStore _).bind fun _ => (sends_liftStore _).bind fun _ =>
            ⟨trivial, fun _ _ => trivial⟩
      · trivial
    · split
      · exact ⟨trivial, fun _ _ => trivial⟩
      · trivial

lemma sends_concatParts (chunks : List PlannedChunk) (written : Bytes) :
    Only (Act.Builds ps) (concatParts chunks written) := by
  induction chunks generalizing written with
  | nil => trivial
  | cons chunk rest ih =>
    refine ⟨trivial, fun (r : Except AssembleError (String × Bytes)) _ => ?_⟩
    rcases r with e | ⟨path, bytes⟩
    · trivial
    · dsimp only
      split
      · trivial
      · exact ih _

lemma sends_verifyStaging (written : Bytes) :
    Only (Act.Builds ps) (verifyStaging ps written) := by
  unfold verifyStaging
  split
  · trivial
  split
  · exact ⟨trivial, fun _ _ => trivial⟩
  refine ⟨trivial, fun (r : Except AssembleError Bytes) _ => ?_⟩
  cases r with
  | error e => trivial
  | ok bytes =>
    dsimp only
    split
    · trivial
    split
    · trivial
    · exact ⟨trivial, fun _ _ => trivial⟩

lemma sends_assemble : Only (Act.Builds ps) (assembleAndFinalize ps) := by
  refine ⟨trivial, fun (r : Except AssembleError Unit) _ => ?_⟩
  cases r with
  | error e => trivial
  | ok u =>
    refine (sends_concatParts _ _).bind fun r => ?_
    cases r with
    | error e => trivial
    | ok written =>
      refine ⟨trivial, fun (r : Except AssembleError Unit) _ => ?_⟩
      cases r with
      | error e => trivial
      | ok u => exact sends_verifyStaging _

/-- **A receiver sends only the frames of its plan.** -/
theorem sends_runMultiSource (fuel : ℕ) (s : Receiver) :
    Only (Act.Builds ps) (runMultiSource ps fuel s) := by
  rw [runMultiSource_eq]
  refine Only.bind (Only.bind ((sends_prepare s).andThen (sends_loop_receiver fuel)).builds
    fun r => ?_) fun out => (sends_afterRun out).builds
  split
  · trivial
  · trivial
  · rw [finish_eq]
    refine Only.bind ?_ fun r => by cases r <;> trivial
    exact (sends_moveTo _ _).builds.andThen fun t =>
      sends_assemble.bind fun r => (sends_afterAssembly t r).builds

end Receiver

/-! ### What the codec carries -/

section Carried

variable {nfc : List Char → List Char}

/-- The codec encodes the frame within its limit and accepts it at the other side. -/
def Travels (nfc : List Char → List Char) (frame : Frame) : Prop :=
  (∃ bytes, encode compactFields frame = .ok bytes ∧ bytes.length ≤ 4 + maxFrameBytes) ∧
    validate nfc frame = .ok ()

/-- The index of a frame is a `u32`. -/
def Frame.IndexFits : Frame → Prop
  | hello _ | offer _ | cancel _ | error _ => True
  | request f => f.chunkIndex < 2 ^ 32
  | chunk f => f.chunkIndex < 2 ^ 32
  | ack f => f.chunkIndex < 2 ^ 32
  | nak f => f.chunkIndex < 2 ^ 32

/-- The media id and the version of a plan are ones that a `Hello` and an `Offer` may name. -/
def DownloadPlan.Binds (plan : DownloadPlan) : Prop :=
  plan.mediaId ≠ "" ∧ plan.mediaId.utf8ByteSize ≤ 64 ∧ 1 ≤ plan.manifestVersion

/-- **When the codec carries a frame of a plan**: the download id is well formed, a `Hello` or an
`Offer` has a media id and a version that may be named and a text that fits, a `Hello` does not list
the index that is none, an `Offer` has a file name that the sanitizer accepts, and a `Nak` is for a
chunk of the plan. -/
def Carried (nfc : List Char → List Char) (plan : DownloadPlan) (frame : Frame) : Prop :=
  checkDownloadId plan.downloadId = .ok () ∧
    match frame with
    | .hello f => plan.Binds ∧ u32Max ∉ f.haveChunks ∧ frame.payloadSize ≤ maxFrameBytes
    | .offer f => plan.Binds ∧ (∃ name, Library.sanitize nfc f.filename = .ok name) ∧
      frame.payloadSize ≤ maxFrameBytes
    | .nak f => f.chunkIndex < plan.chunks.length
    | _ => True

lemma travels_iff {frame : Frame} :
    Travels nfc frame ↔ frame.payloadSize ≤ maxFrameBytes ∧ validate nfc frame = .ok () := by
  refine and_congr_left fun _ => ⟨?_, fun hsize => ⟨_, encode_eq_ok.2 ⟨hsize, rfl⟩, ?_⟩⟩
  · rintro ⟨bytes, henc, -⟩
    exact (encode_eq_ok.1 henc).1
  · have hprefix : ∀ n, (toBeBytes32 n).length = 4 := fun _ => rfl
    rw [List.length_append, hprefix, length_toVec]
    omega

lemma bind_eq_ok {m : Except WireError Unit} {k : Unit → Except WireError Unit} :
    (m >>= k) = .ok () ↔ m = .ok () ∧ k () = .ok () := by
  cases m <;> simp [bind, Except.bind]

lemma checkBinding_eq_ok {plan : DownloadPlan} {peerId : String}
    (hpeer : isCanonicalPeerId peerId = true) :
    checkBinding peerId plan.mediaId plan.manifestVersion = .ok () ↔ plan.Binds := by
  unfold checkBinding DownloadPlan.Binds
  rw [hpeer, Bool.not_true, if_neg Bool.false_ne_true]
  split_ifs with h₁ h₂
  · refine ⟨fun h => (by cases h), fun ⟨hne, hle, _⟩ => ?_⟩
    rcases h₁ with h | h
    · exact absurd h hne
    · omega
  · exact ⟨fun h => (by cases h), fun ⟨_, _, hv⟩ => by omega⟩
  · rw [not_or] at h₁
    exact ⟨fun _ => ⟨h₁.1, by omega, by omega⟩, fun _ => rfl⟩

lemma checkFilename_eq_ok {filename : String} :
    checkFilename nfc filename = .ok () ↔ ∃ name, Library.sanitize nfc filename = .ok name := by
  unfold checkFilename
  cases Library.sanitize nfc filename <;> simp

lemma digitCount_u32 {n : ℕ} (h : n < 2 ^ 32) : digitCount n ≤ 10 :=
  (digitCount_le_iff (by decide)).2 (by omega)

/-- **What a receiver sends.** -/
theorem travels_receiverFrame {ps : RunParams} {frame : Frame} (hplan : ps.plan.WellFormed)
    (hlayout : ps.plan.Layout) (hlocal : isCanonicalPeerId ps.localPeerId = true)
    (hf : ReceiverFrame ps frame) (hfits : frame.IndexFits) :
    Travels nfc frame ↔ Carried nfc ps.plan frame := by
  rw [travels_iff]
  unfold Carried
  have hmax : maxFrameBytes = 1048576 := rfl
  have hsmall : checkDownloadId ps.plan.downloadId = .ok () →
      textSize ps.plan.downloadId ≤ 64 := textSize_of_downloadId
  cases hf with
  | hello had =>
    have hmax' : (if u32Max ∈ had then Except.error (WireError.chunkIndexOutOfRange u32Max u32Max)
        else .ok ()) = .ok () ↔ u32Max ∉ had := by
      split_ifs with h <;> simp [h]
    simp only [validate, bind_eq_ok, checkBinding_eq_ok hlocal, hmax']
    tauto
  | request index =>
    have hdigits := digitCount_u32 hfits
    simp only [validate, Frame.payloadSize, and_true]
    exact ⟨fun h => h.2, fun h => ⟨by have := hsmall h; dsimp only at hdigits; omega, h⟩⟩
  | ack index =>
    have hdigits := digitCount_u32 hfits
    simp only [validate, Frame.payloadSize, and_true]
    exact ⟨fun h => h.2, fun h => ⟨by have := hsmall h; dsimp only at hdigits; omega, h⟩⟩
  | nak index =>
    have hdigits := digitCount_u32 hfits
    dsimp only at hdigits
    simp only [validate, Frame.payloadSize, bind_eq_ok]
    by_cases hlt : index < ps.plan.chunks.length
    · obtain ⟨chunk, hget, hfind⟩ := find_chunk hlayout hlt
      have hhash := hplan.hash chunk (List.mem_of_getElem? hget)
      have hsize := textSize_of_hex hhash
      simp only [hfind, Option.map_some, Option.getD_some, check64_of_hex hhash, hlt, and_true]
      exact ⟨fun h => h.2, fun h => ⟨by have := hsmall h; omega, h⟩⟩
    · have hnone : (ps.plan.chunks.find? fun c => c.index == index) = none := by
        refine List.find?_eq_none.2 fun chunk hchunk heq => hlt ?_
        obtain ⟨j, hj⟩ := List.getElem?_of_mem hchunk
        rw [beq_iff_eq, hlayout.index j chunk hj] at heq
        exact heq ▸ (List.getElem?_eq_some_iff.1 hj).1
      have hempty : check64LowercaseHex "" ≠ .ok () := by decide
      simp only [hnone, Option.map_none, Option.getD_none, hlt, and_false, iff_false]
      exact fun h => hempty h.2.2

/-- **What a sender sends.** -/
theorem travels_senderFrame {prims : Primitives} {plan : DownloadPlan} {filename : String}
    {frame : Frame} (hplan : plan.WellFormed)
    (hbase64 : ∀ bytes, prims.base64Encode bytes = Base64.encode bytes)
    (hf : SenderFrame prims plan filename frame) (hfits : frame.IndexFits) :
    Travels nfc frame ↔ Carried nfc plan frame := by
  rw [travels_iff]
  unfold Carried
  have hmax : maxFrameBytes = 1048576 := rfl
  have hsmall : checkDownloadId plan.downloadId = .ok () → textSize plan.downloadId ≤ 64 :=
    textSize_of_downloadId
  cases hf with
  | offer =>
    simp only [validate, bind_eq_ok, checkBinding_eq_ok hplan.peerId, check64_of_hex hplan.sha256,
      check64_of_hex hplan.blake3, checkFilename_eq_ok]
    tauto
  | ack index =>
    have hdigits := digitCount_u32 hfits
    simp only [validate, Frame.payloadSize, and_true]
    exact ⟨fun h => h.2, fun h => ⟨by have := hsmall h; dsimp only at hdigits; omega, h⟩⟩
  | chunk c bytes hc hlen =>
    have hdigits := digitCount_u32 hfits
    have hhash := hplan.hash c hc
    have hsize := textSize_of_hex hhash
    have hlength := hplan.length c hc
    have hchunk : chunkSizeBytes = 262144 := rfl
    have hbytes := textSize_base64 bytes
    simp only [validate, Frame.payloadSize, bind_eq_ok, check64_of_hex hhash, and_true, hbase64]
    exact ⟨fun h => h.2, fun h => ⟨by have := hsmall h; dsimp only at hdigits; omega, h⟩⟩

end Carried

end Locast.Transfer
