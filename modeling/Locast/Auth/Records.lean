import Locast.Auth.Handshake

/-!
# What a connection's task has behind it

For each effect that matters to who a frame is from, what its task has done and been told before it:
no bearer without a verified signature, no transition to `Authenticated` without a bearer, no
handler without a checked one.  `onFrame_told` reads this off the programs once.
-/

namespace Locast.Auth

open Locast.Lib Locast.Protocol

/-- What a task has done, with the answers. -/
abbrev Done : Type := List ((e : Effect) × e.Resp)

/-- A resume token is looked up. -/
def Effect.selectsToken : Effect → Bool
  | .selectResumeToken _ => true
  | _ => false

/-- A resume token is issued. -/
def Effect.insertsToken : Effect → Bool
  | .insertResumeToken .. => true
  | _ => false

/-- Nothing that was done is of this kind. -/
def Lacks (done : Done) (kind : Effect → Bool) : Prop := ∀ x ∈ done, kind x.1 = false

@[simp] lemma lacks_append {done done' : Done} {kind : Effect → Bool} :
    Lacks (done ++ done') kind ↔ Lacks done kind ∧ Lacks done' kind := List.forall_mem_append

@[simp] lemma lacks_cons {x : (e : Effect) × e.Resp} {done : Done} {kind : Effect → Bool} :
    Lacks (x :: done) kind ↔ kind x.1 = false ∧ Lacks done kind := List.forall_mem_cons

@[simp] lemma lacks_nil {kind : Effect → Bool} : Lacks [] kind := fun x hx => by simp at hx

/-- The task began by receiving its frame, from whoever the connection was authenticated as. -/
def Received (done : Done) (c : ℕ) (authed : Option (Uuid × PubKey)) : Prop :=
  ∃ (deadline : ℤ) (l : Done), done = ⟨.receive c, (authed, deadline)⟩ :: l

lemma Received.append {done : Done} {c : ℕ} {authed : Option (Uuid × PubKey)}
    (h : Received done c authed) (l : Done) : Received (done ++ l) c authed := by
  obtain ⟨deadline, l', rfl⟩ := h
  exact ⟨deadline, l' ++ l, rfl⟩

/-- The signature a handshake frame carries. -/
def Frame.signature (f : Frame) : Option Sig :=
  match f.kind with
  | .auth => f.auth.bind fun a => exactly 64 a.sig
  | .authResume => f.authResume.bind fun a => exactly 64 a.signedNonce
  | _ => none

/-- The bearer a frame presents. -/
def Frame.presented (f : Frame) : Option Bytes32 := f.bearer.bind (exactly 32)

section

variable (env : AuthEnv) (c : ℕ) (f : Frame)

/-- The store has told the task that `userId` and `pubkey` belong together. -/
def Known (done : Done) (userId : Uuid) (pubkey : PubKey) : Prop :=
  ⟨.upsertUser pubkey, .ok userId⟩ ∈ done ∨
    ∃ tokenHash info, ⟨.selectBearer tokenHash, .ok (some info)⟩ ∈ done ∧ info.userId = userId ∧
      info.pubkey = pubkey

/-- **The peer has proven its key**: its frame carries a signature over the nonce of the
connection's challenge, read before it expired, by a key that the ban list was asked about. -/
structure Proven (done : Done) (userId : Uuid) (pubkey : PubKey) (ch : Challenge) : Prop where
  challenge : ⟨.connState c, .challengeSent ch⟩ ∈ done
  inTime : ∃ t : ℤ, t ≤ ch.expiresMs ∧ ⟨.now, t⟩ ∈ done
  asked : ∃ r, r ≠ .ok true ∧ ⟨.isPubkeyBanned pubkey, r⟩ ∈ done
  signed : ∃ sig, f.signature = some sig ∧ env.verify pubkey ch.nonce sig = true
  known : Known done userId pubkey

/-- **The task redeems a resume token**: it has read the token's row and the row of the bearer that
the frame presents, and they carry the same binding. -/
structure Redeems (done : Done) (userId : Uuid) (tokenHash : Bytes32) : Prop where
  kind : f.kind = .authResume
  rows : ∃ (req : AuthResumePayload) (bearer : Bytes32) (info : BearerInfo)
    (row : ResumeInfo) (t : ℤ), f.authResume = some req ∧ exactly 32 req.bearer = some bearer ∧
    req.userId = userId ∧ ⟨.selectBearer (env.sha256 bearer), .ok (some info)⟩ ∈ done ∧
    ⟨.now, t⟩ ∈ done ∧ ⟨.selectResumeToken tokenHash, .ok (some row)⟩ ∈ done ∧
    t < row.expiresMs ∧ info.userId = userId ∧ row.userId = userId ∧
    info.connectionEpoch = row.connectionEpoch ∧ info.roomId = row.roomId

/-- How a session begins: a fresh one by AUTH, a resumed one after its token was given to be
deleted. -/
def Begins (done : Done) (userId : Uuid) : Prop :=
  f.kind = .auth ∨
    ∃ tokenHash r, Redeems env f done userId tokenHash ∧ ⟨.deleteResumeToken tokenHash, r⟩ ∈ done

/-- The bearer that the frame presents was read, unexpired, with the user and key of the session. -/
def Checked (done : Done) (userId : Uuid) (pubkey : PubKey) : Prop :=
  ∃ (token : Bytes32) (t : ℤ) (info : BearerInfo), f.presented = some token ∧ ⟨.now, t⟩ ∈ done ∧
    ⟨.selectBearer (env.sha256 token), .ok (some info)⟩ ∈ done ∧ t < info.expiresMs ∧
    info.userId = userId ∧ info.pubkey = pubkey

/-- What stands behind an effect of the task that handles `f` on the connection `c`. -/
def FrameMay (done : Done) : Effect → Prop
  | .challenge c' ch => c' = c ∧ ⟨.draw, ch.nonce⟩ ∈ done
  | .insertBearer tokenHash userId _ connectionEpoch _ =>
    (∃ pubkey ch, Proven env c f done userId pubkey ch ∧ connectionEpoch = ch.connectionEpoch) ∧
      ∃ token, tokenHash = env.sha256 token ∧ ⟨.draw, token⟩ ∈ done
  | .authenticate c' userId pubkey =>
    c' = c ∧ (∃ ch, Proven env c f done userId pubkey ch) ∧ Begins env f done userId
  | .insertResumeToken tokenHash info =>
    (∃ pubkey, ⟨.authenticate c info.userId pubkey, true⟩ ∈ done) ∧
      (∃ token, tokenHash = env.sha256 token ∧ ⟨.draw, token⟩ ∈ done) ∧
      Lacks done Effect.insertsToken
  | .selectBearer _ => ∃ authed, Received done c authed
  | .selectResumeToken _ => f.kind ≠ .auth ∧ Lacks done Effect.selectsToken
  | .deleteResumeToken tokenHash => ∃ userId, Redeems env f done userId tokenHash
  | .rejoin userId pubkey => ⟨.authenticate c userId pubkey, true⟩ ∈ done
  | .upgrade c' userId pubkey => c' = c ∧ ⟨.authenticate c userId pubkey, true⟩ ∈ done
  | .serve c' userId pubkey _ =>
    c' = c ∧ Received done c (some (userId, pubkey)) ∧ Checked env f done userId pubkey
  | .accept _ | .editBanList _ | .setClock _ | .purgeExpiredBearers _
  | .purgeExpiredResumeTokens _ => False
  | _ => True

end

/-- Effects that decide nothing about who a frame is from. -/
def Effect.plain : Effect → Prop
  | .challenge .. | .insertBearer .. | .authenticate .. | .insertResumeToken ..
  | .selectBearer _ | .selectResumeToken _ | .deleteResumeToken _ | .rejoin .. | .upgrade ..
  | .serve .. => False
  | _ => True

/-- What stands behind each effect of an operation. -/
def Op.May (env : AuthEnv) : Op → Done → Effect → Prop
  | .frame c f, done, e => FrameMay env c f done e
  | _, _, e => e.plain

/-! ### Reading it off the programs -/

/-- The program performs only what `FrameMay` allows. -/
def Told (env : AuthEnv) (c : ℕ) (f : Frame) {α : Type} (Q : α → Done → Prop) (p : Proc α)
    (done : Done) : Prop :=
  p.Sat (.past (FrameMay env c f) fun _ _ => True) Q done

section Rules

variable {env : AuthEnv} {c : ℕ} {f : Frame} {α β : Type} {P : α → Done → Prop}
  {Q : β → Done → Prop} {done : Done}

lemma told_pure {b : β} (h : Q b done) : Told env c f Q (pure b : Proc β) done := h

lemma Told.bind {p : Proc α} {g : α → Proc β} (hp : Told env c f P p done)
    (hg : ∀ a done', P a done' → Told env c f Q (g a) done') : Told env c f Q (p >>= g) done :=
  Prog.Sat.bind hp hg

/-- One effect, then the rest. -/
lemma told_next {e : Effect} {g : e.Resp → Proc β} (he : FrameMay env c f done e)
    (hg : ∀ r, Told env c f Q (g r) (done ++ [⟨e, r⟩])) :
    Told env c f Q ((.op e .ret : Proc e.Resp) >>= g) done := ⟨he, fun r _ => hg r⟩

lemma Proven.append {userId : Uuid} {pubkey : PubKey} {ch : Challenge}
    (h : Proven env c f done userId pubkey ch) (l : Done) :
    Proven env c f (done ++ l) userId pubkey ch where
  challenge := List.mem_append_left _ h.challenge
  inTime := let ⟨t, ht, hm⟩ := h.inTime
    ⟨t, ht, List.mem_append_left _ hm⟩
  asked := let ⟨r, hr, hm⟩ := h.asked
    ⟨r, hr, List.mem_append_left _ hm⟩
  signed := h.signed
  known := h.known.imp (List.mem_append_left _) fun ⟨tokenHash, info, hm, hinfo⟩ =>
    ⟨tokenHash, info, List.mem_append_left _ hm, hinfo⟩

lemma Redeems.append {userId : Uuid} {tokenHash : Bytes32}
    (h : Redeems env f done userId tokenHash) (l : Done) :
    Redeems env f (done ++ l) userId tokenHash where
  kind := h.kind
  rows := by
    obtain ⟨req, bearer, info, row, t, hreq, hbearer, huser, hm, ht, hrow, hrest⟩ := h.rows
    exact ⟨req, bearer, info, row, t, hreq, hbearer, huser, List.mem_append_left _ hm,
      List.mem_append_left _ ht, List.mem_append_left _ hrow, hrest⟩

lemma Begins.append {userId : Uuid} (h : Begins env f done userId) (l : Done) :
    Begins env f (done ++ l) userId :=
  h.imp_right fun ⟨tokenHash, r, hr, hm⟩ => ⟨tokenHash, r, hr.append _, List.mem_append_left _ hm⟩

end Rules

/-! ### The handlers -/

/-- Who is upgraded has been authenticated. -/
def Upgrades (c : ℕ) (actions : List Action) (done : Done) : Prop :=
  ∀ userId pubkey, .upgrade userId pubkey ∈ actions → ⟨.authenticate c userId pubkey, true⟩ ∈ done

/-- No upgrade at all. -/
def Action.plain : Action → Prop
  | .upgrade .. => False
  | _ => True

section Handlers

variable {env : AuthEnv} {c : ℕ} {f : Frame} {done : Done}

lemma told_plain {actions : List Action} (h : ∀ a ∈ actions, a.plain) :
    Told env c f (Upgrades c) (pure actions : Proc (List Action)) done :=
  told_pure fun _ _ ha => (h _ ha).elim

lemma authFail_plain (reason : AuthFailReason) : ∀ a ∈ Proc.authFail reason, a.plain := by
  intro a ha
  simp only [Proc.authFail, List.mem_cons, List.not_mem_nil, or_false] at ha
  rcases ha with rfl | rfl <;> trivial

lemma close_plain (reason : String) : ∀ a ∈ [Action.close reason], a.plain := by
  intro a ha
  rw [List.mem_singleton.1 ha]
  trivial

lemma told_refuse (reason : AuthFailReason) :
    Told env c f (Upgrades c) (Proc.refuse c reason) done :=
  told_next trivial fun _ => told_plain (authFail_plain reason)

lemma issue_told {userId : Uuid} {pubkey : PubKey} {ch : Challenge}
    (hp : Proven env c f done userId pubkey ch) (hb : Begins env f done userId)
    (hno : Lacks done Effect.insertsToken) :
    Told env c f (Upgrades c) (Proc.issue env c userId pubkey ch.connectionEpoch) done := by
  refine told_next trivial fun (nowMs : ℤ) => told_next trivial fun (token : Bytes32) => ?_
  have hp' := (hp.append [⟨.now, nowMs⟩]).append [⟨.draw, token⟩]
  refine told_next ⟨⟨pubkey, ch, hp', rfl⟩, token, rfl, by simp⟩ fun inserted => ?_
  cases inserted with
  | error e => exact told_plain (close_plain _)
  | ok _ =>
    refine told_next ⟨rfl, ⟨ch, hp'.append _⟩, ?_⟩ fun (moved : Bool) => ?_
    · simp only [List.append_assoc]
      exact hb.append _
    cases moved with
    | false => exact told_plain (close_plain _)
    | true =>
      refine told_next trivial fun (resumeToken : Bytes32) => told_next trivial fun (t : ℤ) => ?_
      refine told_next ⟨⟨pubkey, by simp⟩, ⟨resumeToken, rfl, by simp⟩, ?_⟩ fun _ => ?_
      · simpa [Effect.insertsToken] using hno
      · refine told_next (by simp [FrameMay]) fun _ => told_pure fun u pk hu => ?_
        simp at hu
        obtain ⟨rfl, rfl⟩ := hu
        simp

lemma helloResumeToken_told {P : Done → Prop} (hP : ∀ l, P (done ++ l)) (hkind : f.kind ≠ .auth)
    (hno : Lacks done Effect.selectsToken) :
    Told env c f (fun _ done' => P done') (Proc.helloResumeToken env f) done := by
  unfold Proc.helloResumeToken
  split
  · exact told_pure (by simpa using hP [])
  · refine told_next trivial fun (nowMs : ℤ) => ?_
    refine told_next ⟨hkind, by simpa [Effect.selectsToken] using hno⟩ fun row => ?_
    rw [List.append_assoc]
    simp only [Prog.pure_eq]
    split <;> exact told_pure (hP _)

lemma handleHello_told (deadline : ℤ) (hkind : f.kind ≠ .auth)
    (hno : Lacks done Effect.selectsToken) :
    Told env c f (Upgrades c) (Proc.handleHello env c f deadline) done := by
  unfold Proc.handleHello
  split
  · exact told_plain (close_plain _)
  split
  · exact told_plain (close_plain _)
  refine told_next trivial fun (sessionId : Uuid) => told_next trivial fun (serverTsMs : ℤ) =>
    told_next trivial fun (nowMs : ℤ) => ?_
  split
  · exact told_plain (close_plain _)
  refine told_next trivial fun (nonce : Bytes32) => ?_
  refine (helloResumeToken_told (P := fun done' => ⟨.draw, nonce⟩ ∈ done') (fun l => by simp) hkind
    (by simpa [Effect.selectsToken] using hno)).bind fun resumeTokenHash done' hnonce => ?_
  refine told_next trivial fun (epoch : ℕ) => ?_
  refine told_next ⟨rfl, List.mem_append_left _ hnonce⟩ fun (refused : Option String) => ?_
  cases refused with
  | some reason => exact told_plain (close_plain _)
  | none =>
    refine told_plain fun a ha => ?_
    simp only [List.mem_cons, List.not_mem_nil, or_false] at ha
    rcases ha with rfl | rfl <;> trivial

lemma handleAuth_told (deadline : ℤ) (hkind : f.kind = .auth)
    (hinsert : Lacks done Effect.insertsToken) :
    Told env c f (Upgrades c) (Proc.handleAuth env c f deadline) done := by
  unfold Proc.handleAuth
  split
  · exact told_plain (authFail_plain _)
  rename_i auth hauth
  split
  · exact told_plain (authFail_plain _)
  split
  · rename_i pubkey sig hpubkey hsig
    refine told_next trivial fun (nowMs : ℤ) => ?_
    split
    · exact told_plain (authFail_plain _)
    refine told_next trivial fun (throttled : Bool) => ?_
    split
    · exact told_plain (authFail_plain _)
    refine told_next trivial fun (banned : Except SqlError Bool) => ?_
    split
    · exact told_refuse _
    rename_i hbanned
    refine told_next trivial fun (state : ConnState) => ?_
    split
    · rename_i ch
      refine told_next trivial fun (t : ℤ) => ?_
      split
      · exact told_plain (authFail_plain _)
      rename_i htime
      split
      · rename_i hverify
        refine told_next trivial fun (user : Except SqlError Uuid) => ?_
        cases user with
        | error e => exact told_plain (close_plain _)
        | ok userId =>
          refine issue_told ⟨by simp, ⟨t, Int.not_lt.1 htime, by simp⟩, ⟨banned, hbanned, by simp⟩,
            ⟨sig, ?_, hverify⟩, .inl (by simp)⟩ (.inl hkind) ?_
          · simp [Frame.signature, hkind, hauth, hsig]
          · simpa [Effect.insertsToken] using hinsert
      · exact told_refuse _
    · exact told_plain (close_plain _)
  · exact told_plain (authFail_plain _)

/-- A row that was found unexpired. -/
lemma of_unexpired {ρ : Type} {expiresMs : ρ → ℤ} {nowMs : ℤ}
    {found : Except SqlError (Option ρ)} {row : ρ}
    (h : Proc.unexpired expiresMs nowMs found = .ok (some row)) :
    found = .ok (some row) ∧ nowMs < expiresMs row := by
  unfold Proc.unexpired at h
  split at h
  · cases h
  · cases h
  · split at h
    · rename_i hlt
      cases h
      exact ⟨rfl, hlt⟩
    · cases h

lemma resumeSession_told {ch : Challenge} {bearerHash resumeHash : Bytes32} {info : BearerInfo}
    {sig : Sig} (hch : ⟨.connState c, .challengeSent ch⟩ ∈ done)
    (htime : ∃ t : ℤ, t ≤ ch.expiresMs ∧ ⟨.now, t⟩ ∈ done) (hsig : f.signature = some sig)
    (hinfo : ⟨.selectBearer bearerHash, .ok (some info)⟩ ∈ done)
    (hr : Redeems env f done info.userId resumeHash) (hinsert : Lacks done Effect.insertsToken) :
    Told env c f (Upgrades c) (Proc.resumeSession env c ch bearerHash resumeHash info sig)
      done := by
  unfold Proc.resumeSession
  refine told_next trivial fun (banned : Except SqlError Bool) => ?_
  split
  · exact told_refuse _
  rename_i hbanned
  split
  · rename_i hverify
    refine told_next trivial fun revoked => ?_
    refine told_next ⟨info.userId, (hr.append _).append _⟩ fun deleted => ?_
    simp only [List.append_assoc]
    obtain ⟨t, ht, hm⟩ := htime
    refine issue_told ⟨List.mem_append_left _ hch, ⟨t, ht, List.mem_append_left _ hm⟩,
      ⟨banned, hbanned, by simp⟩, ⟨sig, hsig, hverify⟩,
      .inr ⟨bearerHash, info, List.mem_append_left _ hinfo, rfl, rfl⟩⟩
      (.inr ⟨resumeHash, deleted, hr.append _, by simp⟩) ?_
    simpa [Effect.insertsToken] using hinsert
  · exact told_refuse _

lemma handleAuthResume_told (hkind : f.kind = .authResume) {authed : Option (Uuid × PubKey)}
    (hreceived : Received done c authed) (hselect : Lacks done Effect.selectsToken)
    (hinsert : Lacks done Effect.insertsToken) :
    Told env c f (Upgrades c) (Proc.handleAuthResume env c f) done := by
  unfold Proc.handleAuthResume
  split
  · exact told_plain (authFail_plain _)
  rename_i req hreq
  split
  · exact told_plain (authFail_plain _)
  split
  · rename_i bearer sig hbearer hsig
    split
    · exact told_plain (authFail_plain _)
    refine told_next trivial fun (throttled : Bool) => ?_
    split
    · exact told_plain (authFail_plain _)
    refine told_next trivial fun (state : ConnState) => ?_
    split
    · rename_i ch
      refine told_next trivial fun (t : ℤ) => ?_
      split
      · exact told_plain (authFail_plain _)
      rename_i htime
      split
      · exact told_refuse _
      rename_i resumeHash hresume
      refine told_next trivial fun (nowMs : ℤ) =>
        told_next ⟨authed, ?_⟩ fun (bearerRow : Except SqlError (Option BearerInfo)) => ?_
      · simp only [List.append_assoc]
        exact hreceived.append _
      simp only [Prog.pure_eq]
      split
      · exact told_plain (close_plain _)
      · exact told_refuse _
      rename_i info hinfo
      split
      · exact told_refuse _
      rename_i huser
      refine told_next trivial fun (nowMs' : ℤ) =>
        told_next ?_ fun (tokenRow : Except SqlError (Option ResumeInfo)) => ?_
      · exact ⟨by simp [hkind], by simpa [Effect.selectsToken] using hselect⟩
      dsimp only
      split
      · exact told_plain (close_plain _)
      · exact told_refuse _
      rename_i resumeInfo hresumeInfo
      split
      · exact told_refuse _
      rename_i hmatch
      obtain ⟨hrow, -⟩ := of_unexpired hinfo
      obtain ⟨hrow', hlt⟩ := of_unexpired hresumeInfo
      rw [hrow, hrow']
      simp only [Proc.bindingMatches, Bool.or_eq_true, Bool.not_eq_true', Bool.and_eq_false_iff,
        beq_eq_false_iff_ne, decide_eq_true_eq, not_or, not_not] at hmatch
      obtain ⟨⟨⟨huser', hepoch⟩, hroom⟩, huser''⟩ := hmatch
      refine resumeSession_told (by simp) ⟨t, Int.not_lt.1 htime, by simp⟩
        (by simp [Frame.signature, hkind, hreq, hsig]) (by simp) ⟨hkind, ?_⟩ ?_
      · exact ⟨req, bearer, info, resumeInfo, nowMs', hreq, hbearer, huser'.symm, by simp,
          by simp, by simp, hlt, rfl, huser''.trans huser'.symm, hepoch, hroom⟩
      · simpa [Effect.insertsToken] using hinsert
    · exact told_plain (close_plain _)
  · exact told_plain (authFail_plain _)

lemma validateBearerRenewing_told {tokenHash : Bytes32} {ttlMs : ℤ}
    {authed : Option (Uuid × PubKey)} (hreceived : Received done c authed) :
    Told env c f (fun found done' => (∃ l, done' = done ++ l) ∧
      ∀ info, found = .ok (some info) → ∃ (row : BearerInfo) (t : ℤ), ⟨.now, t⟩ ∈ done' ∧
        ⟨.selectBearer tokenHash, .ok (some row)⟩ ∈ done' ∧ t < row.expiresMs ∧
        info.userId = row.userId ∧ info.pubkey = row.pubkey)
      (Proc.validateBearerRenewing tokenHash ttlMs) done := by
  refine told_next trivial fun (nowMs : ℤ) => told_next ⟨authed, hreceived.append _⟩
    fun (found : Except SqlError (Option BearerInfo)) => ?_
  simp only [Prog.pure_eq]
  split
  · rename_i row hrow
    obtain ⟨rfl, hlt⟩ := of_unexpired hrow
    refine told_next trivial fun (nowMs' : ℤ) => ?_
    split
    · refine told_next trivial fun (renewed : Except SqlError Unit) => ?_
      split
      · exact told_pure ⟨⟨_, by simp only [List.append_assoc]; rfl⟩, fun info h => by cases h⟩
      · refine told_pure ⟨⟨_, by simp only [List.append_assoc]; rfl⟩, fun info h => ?_⟩
        cases h
        exact ⟨row, nowMs, by simp, by simp, hlt, rfl, rfl⟩
    · refine told_pure ⟨⟨_, by simp only [List.append_assoc]; rfl⟩, fun info h => ?_⟩
      cases h
      exact ⟨row, nowMs, by simp, by simp, hlt, rfl, rfl⟩
  · rename_i hother
    exact told_pure ⟨⟨_, by simp only [List.append_assoc]; rfl⟩, fun info h => (hother info h).elim⟩

lemma dispatchAuthed_told {userId : Uuid} {pubkey : PubKey}
    (hreceived : Received done c (some (userId, pubkey))) :
    Told env c f (Upgrades c) (Proc.dispatchAuthed env c f userId pubkey) done := by
  unfold Proc.dispatchAuthed
  split
  · exact told_plain (close_plain _)
  rename_i token htoken
  refine (validateBearerRenewing_told hreceived).bind fun found done' h => ?_
  split
  · exact told_plain (close_plain _)
  · exact told_plain (close_plain _)
  rename_i info
  split
  · exact told_plain (close_plain _)
  rename_i huser
  split
  · exact told_plain (close_plain _)
  rename_i hpubkey
  obtain ⟨row, t, hnow, hrow, hlt, hu, hpk⟩ := h.2 info rfl
  obtain ⟨l, rfl⟩ := h.1
  have hchecked : Checked env f (done ++ l) userId pubkey :=
    ⟨token, t, row, htoken, hnow, hrow, hlt, hu.symm.trans (not_not.1 huser),
      hpk.symm.trans (not_not.1 hpubkey)⟩
  refine told_next ⟨rfl, hreceived.append _, hchecked⟩ fun (closes : Bool) => told_plain ?_
  split
  · exact close_plain _
  · simp

lemma dispatch_told {authed : Option (Uuid × PubKey)} {deadline : ℤ}
    (hreceived : Received done c authed) (hselect : Lacks done Effect.selectsToken)
    (hinsert : Lacks done Effect.insertsToken) :
    Told env c f (Upgrades c) (Proc.dispatch env c f authed deadline) done := by
  unfold Proc.dispatch
  split
  · exact dispatchAuthed_told hreceived
  · split
    · rename_i hkind
      exact handleHello_told _ (by simp [hkind]) hselect
    · rename_i hkind
      exact handleAuth_told _ hkind hinsert
    · rename_i hkind
      exact handleAuthResume_told hkind hreceived hselect hinsert
    · exact told_plain (by simp)

lemma performActions_told {actions : List Action} (hu : Upgrades c actions done) :
    Told env c f (fun _ _ => True) (Proc.performActions c actions) done := by
  induction actions generalizing done with
  | nil => exact ⟨trivial, fun _ _ => trivial⟩
  | cons a actions ih =>
    have htail : ∀ l, Upgrades c actions (done ++ l) := fun l userId pubkey ha =>
      List.mem_append_left _ (hu userId pubkey (List.mem_cons_of_mem _ ha))
    cases a with
    | send reply =>
      refine told_next trivial fun (sent : Bool) => ?_
      split
      · exact ih (htail _)
      · exact ⟨trivial, fun _ _ => trivial⟩
    | close reason => exact ⟨trivial, fun _ _ => trivial⟩
    | upgrade userId pubkey =>
      exact told_next ⟨rfl, hu userId pubkey List.mem_cons_self⟩ fun _ => ih (htail _)

end Handlers

/-- **What stands behind the effects of a frame.** -/
lemma onFrame_told (env : AuthEnv) (c : ℕ) (f : Frame) :
    Told env c f (fun _ _ => True) (Proc.onFrame env c f) [] := by
  refine told_next trivial fun (out : Option (Uuid × PubKey) × ℤ) => ?_
  exact (dispatch_told ⟨out.2, [], rfl⟩ (by simp [Effect.selectsToken])
    (by simp [Effect.insertsToken])).bind fun _ _ hu => performActions_told hu

/-- And behind those of any operation. -/
lemma program_told (env : AuthEnv) (op : Op) :
    (op.program env).Sat (.past (op.May env) fun _ _ => True) (fun _ _ => True) [] := by
  cases op with
  | frame c f => exact onFrame_told env c f
  | accept c => exact ⟨trivial, fun _ _ => trivial⟩
  | disconnect c => exact ⟨trivial, fun _ _ => ⟨trivial, fun _ _ => trivial⟩⟩
  | bearerCleanup =>
    exact ⟨trivial, fun _ _ => ⟨trivial, fun _ _ => ⟨trivial, fun _ _ =>
      ⟨trivial, fun _ _ => trivial⟩⟩⟩⟩
  | editBanList keys => exact ⟨trivial, fun _ _ => trivial⟩
  | setClock nowMs => exact ⟨trivial, fun _ _ => trivial⟩

end Locast.Auth
