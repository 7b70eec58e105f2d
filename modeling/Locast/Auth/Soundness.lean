import Locast.Auth.Backed

/-!
# Authentication

Who the frames of a connection are served for has proven its key on this very connection, by a
signature over a nonce drawn for it, and a connection authenticates at most once.  A served frame's
bearer is one that the store holds for its user; that it was minted for this connection is what the
connection's epoch is for, but the check after the handshake does not compare epochs.
-/

namespace Locast.Auth

open Locast.Lib Locast.Protocol
open Locast.Lib.System (Run Did.record Handled Recorded)

variable {env : AuthEnv} {made : PubKey → Bytes32 → Sig → Prop}
  {guard : List Step → Step → Prop} {h : List Step} {p : Tasks} {d : Step} {c : ℕ}
  {userId : Uuid} {pubkey : PubKey}

/-! ### What authentication means -/

/-- **An authentication of a connection**: a handshake frame with a signature, which the holder of
the key made, over the nonce of the connection's own challenge, handled before the challenge expired
and while the key was not banned. -/
structure Authentication (env : AuthEnv) (made : PubKey → Bytes32 → Sig → Prop) (h : List Step)
    (c : ℕ) (userId : Uuid) (pubkey : PubKey) (f : Frame) (ch : Challenge) (sig : Sig) : Prop where
  kind : f.kind = .auth ∨ f.kind = .authResume
  challenged : HappenedOn h c ⟨.challenge c ch, none⟩
  drawn : HappenedOn h c ⟨.draw, ch.nonce⟩
  signature : f.signature = some sig
  signed : made pubkey ch.nonce sig
  inTime : ∃ t : ℤ, t ≤ ch.expiresMs ∧ Happened h (.frame c f) ⟨.now, t⟩
  notBanned : ∃ d ∈ h, d.op = .frame c f ∧ d.effect = .isPubkeyBanned pubkey ∧
    pubkey ∉ d.before.db.bannedPubkeys
  accepted : ∃ d ∈ h, d.op = .frame c f ∧ Did.record d = ⟨.authenticate c userId pubkey, true⟩ ∧
    d.before.db.userOf pubkey = some userId

/-- The bearer was minted by a handshake frame of the connection. -/
def MintedOn (h : List Step) (c : ℕ) (tokenHash : Bytes32) (info : BearerInfo) : Prop :=
  ∃ expiresMs, HappenedOn h c
    ⟨.insertBearer tokenHash info.userId expiresMs info.connectionEpoch info.roomId, .ok ()⟩

/-- **A frame's bearer is accepted**: its row was in the store, had not expired, and is one of this
user, this key and this connection's epoch, minted on this connection. -/
structure BearerAccepted (env : AuthEnv) (h : List Step) (c : ℕ) (userId : Uuid) (pubkey : PubKey)
    (f : Frame) (token : Bytes32) (info : BearerInfo) : Prop where
  presented : f.presented = some token
  stored : ∃ d ∈ h, d.op = .frame c f ∧ d.effect = .selectBearer (env.sha256 token) ∧
    d.before.db.bearerTokens.get (env.sha256 token) = some info
  unexpired : ∃ t : ℤ, t < info.expiresMs ∧ Happened h (.frame c f) ⟨.now, t⟩
  user : info.userId = userId
  key : info.pubkey = pubkey
  minted : MintedOn h c (env.sha256 token) info
  epoch : ∀ ch, HappenedOn h c ⟨.challenge c ch, none⟩ → info.connectionEpoch = ch.connectionEpoch

/-- The step acts for a user on a connection: it serves a frame, or brings the user back to the
rooms at the end of the handshake. -/
def ActsFor (d : Step) (c : ℕ) (userId : Uuid) (pubkey : PubKey) : Prop :=
  (∃ kind, d.effect = .serve c userId pubkey kind) ∨
    (d.effect = .rejoin userId pubkey ∧ ∃ f, d.op = .frame c f)

/-- What the handshake and the bearer check are for. -/
structure Authentic (env : AuthEnv) (made : PubKey → Bytes32 → Sig → Prop) (h : List Step) :
    Prop where
  authenticated : ∀ {pre d post}, h = pre ++ d :: post → ∀ {c userId pubkey},
    ActsFor d c userId pubkey → d.before.db.userOf pubkey = some userId ∧
      ∃ f ch sig, Authentication env made pre c userId pubkey f ch sig
  once : ∀ c, Times h (Authenticates c) ≤ 1
  bearers : ∀ {pre d post}, h = pre ++ d :: post → ∀ {c userId pubkey kind},
    d.effect = .serve c userId pubkey kind →
      ∃ f token info, d.op = .frame c f ∧ BearerAccepted env pre c userId pubkey f token info

/-! ### Runs -/

/-- **The state of every run is backed by its history.** -/
lemma backed_of_run (r : (authSystem env).Run guard .empty h p) : Backed h p.state := by
  refine r.history_invariant (fun h s => Backed h s) backed_empty ?_
  intro h p d p' _ r' _ _ hd hb
  obtain ⟨done, hrec, -, hmay⟩ := recalled r' (show h ++ [d] = h ++ d :: [] from rfl)
  exact hb.step hd hrec hmay

lemma backed_before (r : (authSystem env).Run guard .empty h p) {pre post : List Step}
    (hh : h = pre ++ d :: post) : Backed pre d.before := by
  obtain ⟨-, -, p', r', hs⟩ := r.split hh
  exact hs ▸ backed_of_run r'

lemma userOf_of_mem {db : Db} (hnodup : (db.userIdentities.map Identity.pubkey).Nodup)
    (hm : ⟨userId, pubkey⟩ ∈ db.userIdentities) : db.userOf pubkey = some userId := by
  unfold Db.userOf
  cases hf : db.userIdentities.find? fun i => i.pubkey == pubkey with
  | none =>
    have hno := List.find?_eq_none.1 hf _ hm
    simp at hno
  | some i =>
    have hkey := List.find?_some hf
    have hkey := eq_of_beq hkey
    have hi := List.mem_of_find?_eq_some hf
    have := List.inj_on_of_nodup_map hnodup hi hm hkey
    rw [this]
    rfl

/-! ### Behind a step -/

/-- A step of a run with what stands before it. -/
structure Behind (env : AuthEnv) (guard : List Step → Step → Prop) (h pre : List Step) (d : Step)
    (done : Done) : Prop where
  sub : ∀ {op x}, Happened pre op x → Happened h op x
  handled : (authSystem env).Handled d
  meets : guard pre d
  recorded : Recorded pre d.op done
  past : Past (d.op.May env) done
  may : d.op.May env done d.effect
  backed : Backed pre d.before

lemma behind_step (r : (authSystem env).Run guard .empty h p) {pre post : List Step}
    (hh : h = pre ++ d :: post) : ∃ done, Behind env guard h pre d done := by
  obtain ⟨hd, hg, -⟩ := r.split hh
  obtain ⟨done, hrec, hpast, hmay⟩ := recalled r hh
  exact ⟨done, fun hx => hh ▸ hx.append _, hd, hg, hrec, hpast, hmay, backed_before r hh⟩

lemma behind (r : (authSystem env).Run guard .empty h p) {op : Op} {x : Record}
    (hx : Happened h op x) : ∃ pre d done, d ∈ h ∧ d.op = op ∧ Did.record d = x ∧
      Behind env guard h pre d done := by
  obtain ⟨d, hd, hop, hrec⟩ := hx
  obtain ⟨pre, post, hh⟩ := List.append_of_mem hd
  obtain ⟨done, hb⟩ := behind_step r hh
  exact ⟨pre, d, done, hd, hop, hrec, hb⟩

/-- Behind a frame's effect. -/
lemma Behind.frame {pre : List Step} {done : Done} (hb : Behind env guard h pre d done)
    {e : Effect} {r : e.Resp} (hx : Did.record d = ⟨e, r⟩) (he : ¬e.plain) :
    ∃ c f, d.op = .frame c f ∧ FrameMay env c f done e := by
  have heff : d.effect = e := congrArg Sigma.fst hx
  exact frame_of_may (heff ▸ hb.may) he

/-- A challenge is its connection's own, and so is its nonce. -/
lemma own_challenge (r : (authSystem env).Run guard .empty h p) {op : Op} {ch : Challenge}
    (hx : Happened h op ⟨.challenge c ch, none⟩) :
    HappenedOn h c ⟨.challenge c ch, none⟩ ∧ HappenedOn h c ⟨.draw, ch.nonce⟩ := by
  obtain ⟨pre, d, done, hd, rfl, hrec, hb⟩ := behind r hx
  obtain ⟨c', f, hop, rfl, hdraw⟩ := hb.frame hrec (by simp [Effect.plain])
  exact ⟨⟨f, hop ▸ hx⟩, f, hop ▸ hb.sub (hb.recorded.mem hdraw)⟩

/-- What a task read of its connection. -/
lemma challenge_of_read (r : (authSystem env).Run guard .empty h p) {op : Op} {ch : Challenge}
    (hx : Happened h op ⟨.connState c, .challengeSent ch⟩) :
    HappenedOn h c ⟨.challenge c ch, none⟩ ∧ HappenedOn h c ⟨.draw, ch.nonce⟩ := by
  obtain ⟨pre, d, done, hd, rfl, hrec, hb⟩ := behind r hx
  have hstate : (d.before.conns c).state = .challengeSent ch := by
    obtain ⟨op, e, inp, resp, before, after⟩ := d
    cases hrec
    exact (Prod.mk.inj (Option.some.inj hb.handled)).1
  obtain ⟨op, hop⟩ := hb.backed.challenged hstate
  exact own_challenge r (hb.sub hop)

/-! ### The condition -/

/-- **The condition on a step.**  A frame of an authenticated connection presents no bearer that its
user was given on another connection, and a ban-list lookup that fails is for a key that is not
banned. -/
structure Bound (h : List Step) (d : Step) : Prop where
  own : ∀ {c f tokenHash info}, d.op = .frame c f →
    (d.before.conns c).authed = some (info.userId, info.pubkey) →
    Did.record d = ⟨.selectBearer tokenHash, .ok (some info)⟩ → MintedOn h c tokenHash info
  banRead : ∀ {pubkey e}, Did.record d = ⟨.isPubkeyBanned pubkey, .error e⟩ →
    pubkey ∉ d.before.db.bannedPubkeys

/-! ### Authentication -/

lemma MintedOn.append {tokenHash : Bytes32} {info : BearerInfo} (hm : MintedOn h c tokenHash info)
    (l : List Step) : MintedOn (h ++ l) c tokenHash info :=
  let ⟨expiresMs, hx⟩ := hm
  ⟨expiresMs, hx.append l⟩

/-- A key whose lookup did not say that it is banned was not. -/
lemma notBanned_of_asked (r : (authSystem env).Run Bound .empty h p) {op : Op}
    {answer : Except SqlError Bool} (hne : answer ≠ .ok true)
    (hx : Happened h op ⟨.isPubkeyBanned pubkey, answer⟩) :
    ∃ d ∈ h, d.op = op ∧ d.effect = .isPubkeyBanned pubkey ∧
      pubkey ∉ d.before.db.bannedPubkeys := by
  obtain ⟨pre, d, done, hd, hop, hrec, hb⟩ := behind r hx
  refine ⟨d, hd, hop, congrArg Sigma.fst hrec, ?_⟩
  cases answer with
  | error e => exact hb.meets.banRead hrec
  | ok banned =>
    obtain rfl : banned = false := by simpa using hne
    obtain ⟨op, e, inp, resp, before, after⟩ := d
    cases hrec
    have hr : (if inp.fails then Except.error SqlError.failed
        else Except.ok (decide (pubkey ∈ before.db.bannedPubkeys))) = Except.ok false :=
      (Prod.mk.inj (Option.some.inj hb.handled)).1
    split at hr
    · cases hr
    · exact of_decide_eq_false (Except.ok.inj hr)

/-- **Behind every transition to `Authenticated` stands an authentication.** -/
lemma authentication_of (unforgeable : ∀ pk m sig, env.verify pk m sig = true → made pk m sig)
    (r : (authSystem env).Run Bound .empty h p) {op : Op}
    (hx : Happened h op ⟨.authenticate c userId pubkey, true⟩) :
    ∃ f ch sig, Authentication env made h c userId pubkey f ch sig := by
  obtain ⟨pre, d, done, hd, rfl, hrec, hb⟩ := behind r hx
  obtain ⟨c', f, hop, rfl, ⟨ch, hproven⟩, hbegins⟩ := hb.frame hrec (by simp [Effect.plain])
  have told {x : Record} (hm : x ∈ done) : Happened h (.frame c f) x :=
    hop ▸ hb.sub (hb.recorded.mem hm)
  obtain ⟨sig, hsig, hverify⟩ := hproven.signed
  obtain ⟨hch, hdraw⟩ := challenge_of_read r (told hproven.challenge)
  obtain ⟨t, ht, hnow⟩ := hproven.inTime
  obtain ⟨answer, hne, hasked⟩ := hproven.asked
  refine ⟨f, ch, sig, ?_, hch, hdraw, hsig, unforgeable _ _ _ hverify, ⟨t, ht, told hnow⟩,
    notBanned_of_asked r hne (told hasked), d, hd, hop, hrec,
    userOf_of_mem hb.backed.pubkeys (behind_authenticate hb.backed hb.recorded hb.may hrec)⟩
  rcases hbegins with hkind | ⟨tokenHash, _, hredeems, -⟩
  · exact .inl hkind
  · exact .inr hredeems.kind

/-- Two challenges of one connection are the same. -/
lemma challenge_unique (r : (authSystem env).Run guard .empty h p) {op op' : Op}
    {ch ch' : Challenge} (hx : Happened h op ⟨.challenge c ch, none⟩)
    (hy : Happened h op' ⟨.challenge c ch', none⟩) : ch = ch' := by
  have hsame := eq_of_times ((backed_of_run r).challengedOnce c).1 hx hy
    (by simp [Challenges]) (by simp [Challenges])
  cases hsame
  rfl

/-- A bearer carries the epoch of the connection it was minted on. -/
lemma epoch_of_minted (r : (authSystem env).Run guard .empty h p) {tokenHash : Bytes32}
    {info : BearerInfo} (hm : MintedOn h c tokenHash info) {ch : Challenge}
    (hch : HappenedOn h c ⟨.challenge c ch, none⟩) : info.connectionEpoch = ch.connectionEpoch := by
  obtain ⟨expiresMs, f, hx⟩ := hm
  obtain ⟨pre, d, done, hd, hop, hrec, hb⟩ := behind r hx
  obtain ⟨c', f', hop', ⟨pk, ch', hproven, hepoch⟩, -⟩ := hb.frame hrec (by simp [Effect.plain])
  cases hop.symm.trans hop'
  obtain ⟨⟨f₁, hch'⟩, -⟩ := challenge_of_read r (hb.sub (hb.recorded.mem hproven.challenge))
  obtain ⟨f₂, hch⟩ := hch
  rw [hepoch, challenge_unique r hch hch']

/-! ### The main result -/

/-- The bearer of a served frame. -/
lemma bearer_of_checked (r : (authSystem env).Run Bound .empty h p) {f : Frame} {done : Done}
    (hrec : Recorded h (.frame c f) done) (hpast : Past (FrameMay env c f) done)
    (hreceived : Received done c (some (userId, pubkey)))
    (hchecked : Checked env f done userId pubkey) :
    ∃ token info, BearerAccepted env h c userId pubkey f token info := by
  obtain ⟨token, t, info, hpresented, hnow, hselect, hlt, rfl, rfl⟩ := hchecked
  obtain ⟨l, l', rfl⟩ := List.append_of_mem hselect
  -- the frame was received before the bearer was read
  obtain ⟨authed, deadline, m, rfl⟩ := hpast _ _ _ rfl
  obtain ⟨deadline', m', hhead⟩ := hreceived
  cases (List.cons.inj hhead).1
  obtain ⟨pre, d, post, hh, hop, hx, hl⟩ := hrec.split
  obtain ⟨hd, hg, p', r', hs⟩ := r.split hh
  have hauthed := (backed_before r hh).received (hl.mem List.mem_cons_self)
  have hminted := hg.own hop hauthed hx
  have hm : MintedOn h c (env.sha256 token) info := hh ▸ hminted.append _
  refine ⟨token, info, hpresented, ⟨d, by simp [hh], hop, congrArg Sigma.fst hx,
    (selected_spec hd hx).1⟩, ⟨t, hlt, hrec.mem hnow⟩, rfl, rfl, hm,
    fun ch hch => epoch_of_minted r hm hch⟩

/-- **Authentication soundness.**  In every run whose steps meet the condition, whoever a connection
acts for has authenticated on it, once, and every served frame carries a bearer of this very
connection. -/
theorem authentication_sound (env : AuthEnv) (made : PubKey → Bytes32 → Sig → Prop)
    (unforgeable : ∀ pk m sig, env.verify pk m sig = true → made pk m sig) {h : List Step}
    {p : Tasks} (r : (authSystem env).Run Bound .empty h p) : Authentic env made h where
  once c := ((backed_of_run r).authenticatedOnce c).1
  authenticated {pre d post} hh {c userId pubkey} hacts := by
    obtain ⟨done, hb⟩ := behind_step r hh
    obtain ⟨-, -, p', r', hs⟩ := r.split hh
    have hx : ∃ op, Happened pre op ⟨.authenticate c userId pubkey, true⟩ := by
      rcases hacts with ⟨kind, he⟩ | ⟨he, f, hop⟩
      · obtain ⟨c', f, hop, rfl, ⟨deadline, l, rfl⟩, -⟩ :=
          frame_of_may (he ▸ hb.may) (by simp [Effect.plain])
        exact hb.backed.authed (hb.backed.received (hb.recorded.mem List.mem_cons_self))
      · obtain ⟨c', f', hop', hm⟩ := frame_of_may (he ▸ hb.may) (by simp [Effect.plain])
        cases hop.symm.trans hop'
        exact ⟨_, hb.recorded.mem hm⟩
    obtain ⟨op, hop⟩ := hx
    exact ⟨userOf_of_mem hb.backed.pubkeys (hb.backed.authenticated hop),
      authentication_of unforgeable r' hop⟩
  bearers {pre d post} hh {c userId pubkey kind} he := by
    obtain ⟨done, hb⟩ := behind_step r hh
    obtain ⟨-, -, p', r', -⟩ := r.split hh
    obtain ⟨c', f, hop, rfl, hreceived, hchecked⟩ :=
      frame_of_may (he ▸ hb.may) (by simp [Effect.plain])
    have hrec := hb.recorded
    have hpast := hb.past
    rw [hop] at hrec hpast
    obtain ⟨token, info, hbearer⟩ := bearer_of_checked r' hrec hpast hreceived hchecked
    exact ⟨f, token, info, hop, hbearer⟩

/-! ### Two connections of one user -/

/-- The step inserts this row under this hash, on this connection. -/
def Mints (c : ℕ) (tokenHash : Bytes32) (info : BearerInfo) : Step → Bool
  | ⟨.frame c' _, .insertBearer tokenHash' userId _ connectionEpoch roomId, _, (.ok ()), _, _⟩ =>
    c' == c && tokenHash' == tokenHash && userId == info.userId &&
      connectionEpoch == info.connectionEpoch && roomId == info.roomId
  | _ => false

/-- The condition, computed. -/
def boundCheck (h : List Step) : Step → Bool
  | ⟨.frame c _, .selectBearer tokenHash, _, (.ok (some info)), before, _⟩ =>
    (before.conns c).authed != some (info.userId, info.pubkey) || h.any (Mints c tokenHash info)
  | ⟨_, .isPubkeyBanned pubkey, _, (.error _), before, _⟩ =>
    !before.db.bannedPubkeys.contains pubkey
  | _ => true

lemma mintedOn_of_mints {tokenHash : Bytes32} {info : BearerInfo}
    (hany : h.any (Mints c tokenHash info) = true) : MintedOn h c tokenHash info := by
  obtain ⟨d, hd, hm⟩ := List.any_eq_true.1 hany
  unfold Mints at hm
  split at hm
  · simp only [Bool.and_eq_true, beq_iff_eq] at hm
    obtain ⟨⟨⟨⟨rfl, rfl⟩, rfl⟩, rfl⟩, rfl⟩ := hm
    exact ⟨_, _, _, hd, rfl, rfl⟩
  · cases hm

lemma bound_of_check (hcheck : boundCheck h d = true) : Bound h d := by
  obtain ⟨op, e, inp, resp, before, after⟩ := d
  refine ⟨fun hop hauthed hx => ?_, fun hx => ?_⟩
  · cases hop
    cases hx
    simp only [boundCheck, Bool.or_eq_true, bne_iff_ne, ne_eq] at hcheck
    exact mintedOn_of_mints (hcheck.resolve_left (not_not.2 hauthed))
  · cases hx
    simpa [boundCheck] using hcheck

/-- The moves played on a new server. -/
def played (env : AuthEnv) (moves : List (Move Op Input)) : Option (List Step × Tasks) :=
  (authSystem env).play [] ⟨.empty, []⟩ moves

/-- A played list of moves is a run, when each of its steps meets a guard that is computed. -/
lemma run_of_played (env : AuthEnv) (moves : List (Move Op Input)) (check : List Step → Step → Bool)
    (ok : List Step × Tasks → Bool) (hcheck : ∀ h d, check h d = true → guard h d)
    (hp : (played env moves).any (fun out => ok out &&
      (List.range out.1.length).all fun i => (out.1[i]?).all (check (out.1.take i))) = true) :
    ∃ h p, (authSystem env).Run guard .empty h p ∧ ok (h, p) = true :=
  System.exists_run_of_play moves check ok hcheck hp

namespace StolenBearer

/-- A server with the default settings whose signatures are the key followed by the message. -/
def plainEnv : AuthEnv where
  handshakeTimeoutMs := 15000
  challengeTtlMs := 30000
  bearerTtlSeconds := 900
  sha256 := id
  verify pk m sig := sig.toList == pk.toList ++ m.toList

def signs (pk : PubKey) (m : Bytes32) (sig : Sig) : Prop := sig.toList = pk.toList ++ m.toList

lemma unforgeable (pk : PubKey) (m : Bytes32) (sig : Sig) (h : plainEnv.verify pk m sig = true) :
    signs pk m sig := eq_of_beq h

def bytes (b : UInt8) : Bytes32 := Vector.replicate 32 b

/-- The user's key. -/
def key : PubKey := Vector.replicate 32 200

/-- `n` steps of the `i`-th task, whose draws give `b`. -/
def steps (i n : ℕ) (b : UInt8) : List (Move Op Input) :=
  List.replicate n (.advance i { random := bytes b, id := 7 })

def hello : Frame := { kind := .hello, hello := true }

/-- AUTH with the signature over the nonce `b`. -/
def auth (b : UInt8) : Frame :=
  { kind := .auth, auth := some ⟨key.toList, key.toList ++ (bytes b).toList⟩ }

/-- A room command with the bearer `b`. -/
def command (b : UInt8) : Frame := { kind := .room, bearer := some (bytes b).toList }

lemma command_presents (b : UInt8) : (command b).presented = some (bytes b) :=
  exactly_toList (bytes b)

/-- A connection `c` whose first task is the `i`-th is accepted and authenticates: its nonce is `b`,
its bearer `b + 1` and its resume token `b + 2`. -/
def connects (c i : ℕ) (b : UInt8) : List (Move Op Input) :=
  .spawn (.accept c) :: steps i 1 b ++
  .spawn (.frame c hello) :: steps (i + 1) 10 b ++
  .spawn (.frame c (auth b)) :: steps (i + 2) 9 (b + 1) ++ steps (i + 2) 2 (b + 1) ++
    steps (i + 2) 7 (b + 2)

/-- The step serves a frame. -/
def serves (d : Step) : Bool :=
  match d.effect with
  | .serve .. => true
  | _ => false

/-- The step mints the bearer `token` on the connection `c`. -/
def mintsOn (c : ℕ) (token : Bytes32) (d : Step) : Bool :=
  match d.op, d.effect with
  | .frame c' _, .insertBearer tokenHash .. => c' == c && tokenHash == token
  | _, _ => false

/-- The last step serves a frame of the connection 1 that carries a bearer not minted there. -/
def stolen (out : List Step × Tasks) : Bool :=
  out.1.getLast?.any fun d => d.op == .frame 1 (command 2) && serves d &&
    out.1.dropLast.all fun d' => !mintsOn 1 (bytes 2) d'

lemma notSound_of_stolen {h : List Step} {p : Tasks} (hs : stolen (h, p) = true) :
    ¬Authentic plainEnv signs h := by
  intro ha
  obtain ⟨d, hd, hs⟩ := (Option.any_eq_true _ _).1 hs
  simp only [Bool.and_eq_true, List.all_eq_true, beq_iff_eq] at hs
  obtain ⟨⟨hop, hserve⟩, hnone⟩ := hs
  have hh : h = h.dropLast ++ d :: [] := (List.dropLast_append_getLast? d hd).symm
  unfold serves at hserve
  split at hserve
  · rename_i heff
    obtain ⟨f, token, info, hop', hb⟩ := ha.bearers hh heff
    obtain ⟨expiresMs, f', d', hd', hop'', hrec⟩ := hb.minted
    cases hop.symm.trans hop'
    have htoken : token = bytes 2 := by
      have hpresented := hb.presented
      rw [command_presents] at hpresented
      exact (Option.some.inj hpresented).symm
    have hmint := hnone d' hd'
    have heff' : d'.effect = _ := congrArg Sigma.fst hrec
    rw [mintsOn, hop'', heff', htoken] at hmint
    simp [plainEnv] at hmint
  · cases hserve

/-- A bearer is served on a connection it was not minted on: the user of the connections 0 and 1
sends a command with the bearer of the first over the second. -/
theorem stolen_bearer_served :
    ∃ h p, (authSystem plainEnv).Run (fun _ _ => True) .empty h p ∧
      ¬Authentic plainEnv signs h := by
  obtain ⟨h, p, r, hs⟩ := run_of_played plainEnv
    (connects 0 0 1 ++ connects 1 3 11 ++ .spawn (.frame 1 (command 2)) :: steps 6 5 20)
    (fun _ _ => true) stolen (fun _ _ _ => trivial) (by decide)
  exact ⟨h, p, r, notSound_of_stolen hs⟩

/-- On each of two connections a command with the bearer that was minted there, step by step in
turn, and then the first command again. -/
def commandsInTurn : List (Move Op Input) :=
  .spawn (.frame 0 (command 2)) :: .spawn (.frame 1 (command 12)) ::
    (List.replicate 6 (steps 6 1 20 ++ steps 7 1 20)).flatten ++
    .spawn (.frame 0 { command 2 with number := 1 }) :: steps 8 6 20

/-- Both connections of a user are served with the bearers that were minted on them. -/
theorem authentication_sound_inTurn : ∃ h p, (authSystem plainEnv).Run Bound .empty h p ∧
    h.countP serves = 3 ∧ Authentic plainEnv signs h := by
  obtain ⟨h, p, r, hs⟩ := run_of_played plainEnv
    (connects 0 0 1 ++ connects 1 3 11 ++ commandsInTurn)
    boundCheck (fun out => out.1.countP serves == 3) (fun _ _ => bound_of_check) (by decide)
  exact ⟨h, p, r, beq_iff_eq.1 hs, authentication_sound plainEnv signs unforgeable r⟩

end StolenBearer

end Locast.Auth
