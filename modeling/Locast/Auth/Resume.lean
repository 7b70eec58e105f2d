import Locast.Auth.Soundness
import Mathlib.Algebra.Order.BigOperators.Group.List
import Mathlib.Algebra.Order.Group.Nat
import Mathlib.Data.List.Induction

/-!
# Resume tokens

A resume token is looked up, checked, deleted and replaced in steps of their own, and the deletion
does not ask whether it deleted anything.  So a token is good for one AUTH_RESUME as long as every
deletion finds the row that was looked up: then the deletions of a token are no more than its
insertions, and those no more than the draws of its bytes.
-/

namespace Locast.Auth

open Locast.Lib Locast.Protocol
open Locast.Lib.System (Run Did.record Handled Recorded)

variable {env : AuthEnv} {guard : List Step → Step → Prop} {h : List Step} {p : Tasks} {d : Step}
  {tokenHash : Bytes32}

/-! ### Redemptions -/

/-- The task of a frame. -/
abbrev FrameTask : Type := Task Effect.Resp Op Unit

/-- The transition to `Authenticated` went through. -/
def authenticates : Record → Bool
  | ⟨.authenticate .., (r : Bool)⟩ => r
  | _ => false

/-- The token was looked up. -/
def looksUp (tokenHash : Bytes32) (x : Record) : Bool := x.1 == .selectResumeToken tokenHash

/-- The token was given to be deleted. -/
def deletes (tokenHash : Bytes32) (x : Record) : Bool := x.1 == .deleteResumeToken tokenHash

/-- The token was issued. -/
def inserts (tokenHash : Bytes32) (x : Record) : Bool :=
  match x.1 with
  | .insertResumeToken tokenHash' _ => tokenHash' == tokenHash
  | _ => false

/-- Bytes with this digest were drawn. -/
def draws (env : AuthEnv) (tokenHash : Bytes32) : Record → Bool
  | ⟨.draw, token⟩ => env.sha256 token == tokenHash
  | _ => false

/-- **The task has redeemed the token**: it looked the token up, and authenticated. -/
def redeemed (tokenHash : Bytes32) (t : FrameTask) : Bool :=
  t.done.any (looksUp tokenHash) && t.done.any authenticates

/-- At the moment a task deletes the token, its row is there, unexpired, and is one of the user and
of the binding of the bearer that the frame presents. -/
def Consumed (env : AuthEnv) (h : List Step) (op : Op) (tokenHash : Bytes32)
    (userId : Uuid) : Prop :=
  ∃ d ∈ h, d.op = op ∧ Did.record d = ⟨.deleteResumeToken tokenHash, .ok ()⟩ ∧
    ∃ c f req bearer info row, op = .frame c f ∧ f.authResume = some req ∧
      exactly 32 req.bearer = some bearer ∧
      Happened h op ⟨.selectBearer (env.sha256 bearer), .ok (some info)⟩ ∧
      d.before.db.sessionResumeTokens.get tokenHash = some row ∧ d.before.now < row.expiresMs ∧
      row.userId = userId ∧ req.userId = userId ∧ info.userId = userId ∧
      info.connectionEpoch = row.connectionEpoch ∧ info.roomId = row.roomId

/-- What resume tokens are for. -/
structure SingleUse (env : AuthEnv) (h : List Step) (p : Tasks) : Prop where
  once : ∀ tokenHash, p.tasks.countP (redeemed tokenHash) ≤ 1
  issues : ∀ t ∈ p.tasks, ∀ c userId pubkey, ⟨.authenticate c userId pubkey, true⟩ ∈ t.done →
    t.done.countP (fun x => x.1.insertsToken) ≤ 1 ∧
      ∀ tokenHash info r, ⟨.insertResumeToken tokenHash info, r⟩ ∈ t.done → info.userId = userId
  consumed : ∀ t ∈ p.tasks, ∀ tokenHash, t.done.any (looksUp tokenHash) = true →
    ∀ c userId pubkey, ⟨.authenticate c userId pubkey, true⟩ ∈ t.done →
      Consumed env h t.op tokenHash userId
  refused : ∀ t ∈ p.tasks, ∀ tokenHash e, ⟨.deleteResumeToken tokenHash, .error e⟩ ∈ t.done →
    t.done.any authenticates = false

/-- **The condition on a step**: a resume token is deleted while its row is there and has not
expired, and the deletion does not fail. -/
def Consumes (_ : List Step) (d : Step) : Prop :=
  ∀ tokenHash r, Did.record d = ⟨.deleteResumeToken tokenHash, r⟩ → r = .ok () ∧
    ∃ row, d.before.db.sessionResumeTokens.get tokenHash = some row ∧ d.before.now < row.expiresMs

/-! ### One task -/

section Tasks

variable {op : Op} {done : Done}

lemma past_of_append {may : Done → Effect → Prop} {l : Done} (hp : Past may (done ++ l)) :
    Past may done := fun m x m' hm => hp m x (m' ++ l) (by simp [hm])

/-- What is only done when it has not been done is done at most once. -/
lemma countP_le_one_of_lacks {may : Done → Effect → Prop} {kind : Effect → Bool}
    (hlacks : ∀ l e, may l e → kind e = true → Lacks l kind) (hp : Past may done) :
    done.countP (fun x => kind x.1) ≤ 1 := by
  induction done using List.reverseRecOn with
  | nil => exact Nat.zero_le _
  | append_singleton done x ih =>
    rw [List.countP_append, List.countP_singleton]
    split
    · rename_i hx
      have hnone := hlacks done x.1 (hp done x [] rfl) hx
      have hzero : done.countP (fun x => kind x.1) = 0 :=
        List.countP_eq_zero.2 fun y hy => by simp [hnone y hy]
      omega
    · have := ih (past_of_append hp)
      omega

lemma countP_inserts_le (hp : Past (op.May env) done) :
    done.countP (fun x => x.1.insertsToken) ≤ 1 := by
  refine countP_le_one_of_lacks (fun l e hmay he => ?_) hp
  cases e with
  | insertResumeToken tokenHash info =>
    obtain ⟨c, f, rfl, -, -, hlacks⟩ := frame_of_may hmay (by simp [Effect.plain])
    exact hlacks
  | _ => cases he

lemma countP_selects_le (hp : Past (op.May env) done) :
    done.countP (fun x => x.1.selectsToken) ≤ 1 := by
  refine countP_le_one_of_lacks (fun l e hmay he => ?_) hp
  cases e with
  | selectResumeToken tokenHash =>
    obtain ⟨c, f, rfl, -, hlacks⟩ := frame_of_may hmay (by simp [Effect.plain])
    exact hlacks
  | _ => cases he

/-- Behind an issued token. -/
lemma issued_of_mem (hp : Past (op.May env) done) {info : ResumeInfo} {r : Except SqlError Unit}
    (hm : ⟨.insertResumeToken tokenHash info, r⟩ ∈ done) :
    ∃ c f, op = .frame c f ∧ (∃ pubkey, ⟨.authenticate c info.userId pubkey, true⟩ ∈ done) ∧
      ∃ token, tokenHash = env.sha256 token ∧ ⟨.draw, token⟩ ∈ done := by
  obtain ⟨l, l', rfl⟩ := List.append_of_mem hm
  obtain ⟨c, f, hop, ⟨pubkey, ha⟩, ⟨token, ht, hd⟩, -⟩ :=
    frame_of_may (hp l _ l' rfl) (by simp [Effect.plain])
  exact ⟨c, f, hop, ⟨pubkey, List.mem_append_left _ ha⟩, token, ht, List.mem_append_left _ hd⟩

/-- No token is issued that was not drawn. -/
lemma countP_inserts_le_draws (hp : Past (op.May env) done) :
    done.countP (inserts tokenHash) ≤ done.countP (draws env tokenHash) := by
  have hone : done.countP (inserts tokenHash) ≤ 1 := by
    refine (List.countP_mono_left fun x _ hx => ?_).trans (countP_inserts_le hp)
    obtain ⟨e, r⟩ := x
    cases e with
    | insertResumeToken tokenHash' info => rfl
    | _ => cases hx
  rcases Nat.eq_zero_or_pos (done.countP (inserts tokenHash)) with hzero | hpos
  · omega
  · obtain ⟨⟨e, r⟩, hm, hx⟩ := List.countP_pos_iff.1 hpos
    cases e with
    | insertResumeToken tokenHash' info =>
      obtain rfl : tokenHash' = tokenHash := eq_of_beq hx
      obtain ⟨c, f, -, -, token, ht, hd⟩ := issued_of_mem hp hm
      have := List.countP_pos_iff.2 ⟨_, hd, show draws env tokenHash' ⟨.draw, token⟩ = true by
        simp [draws, ht]⟩
      omega
    | _ => cases hx

/-- Behind a redeemed token. -/
lemma redeems_of_mem (hp : Past (op.May env) done) (hl : done.any (looksUp tokenHash) = true)
    {c : ℕ} {userId : Uuid} {pubkey : PubKey} (ha : ⟨.authenticate c userId pubkey, true⟩ ∈ done) :
    ∃ f, op = .frame c f ∧ Redeems env f done userId tokenHash ∧
      ∃ r, ⟨.deleteResumeToken tokenHash, r⟩ ∈ done := by
  obtain ⟨⟨e, found⟩, hm, he⟩ := List.any_eq_true.1 hl
  obtain rfl : e = .selectResumeToken tokenHash := eq_of_beq he
  obtain ⟨l, l', hsplit⟩ := List.append_of_mem ha
  obtain ⟨c', f, rfl, rfl, -, hbegins⟩ :=
    frame_of_may (hp l _ l' hsplit) (by simp [Effect.plain])
  refine ⟨f, rfl, ?_⟩
  rcases hbegins with hkind | ⟨tokenHash', r, hredeems, hdelete⟩
  · -- an AUTH looks no token up
    obtain ⟨m, m', hsplit'⟩ := List.append_of_mem hm
    exact absurd hkind (hp m _ m' hsplit').1
  · obtain ⟨req, bearer, info, row, t, -, -, -, -, -, hrow, -⟩ := hredeems.rows
    have hrow' : ⟨.selectResumeToken tokenHash', .ok (some row)⟩ ∈ done :=
      hsplit ▸ List.mem_append_left _ hrow
    have hsame := eq_of_countP_le_one (countP_selects_le hp) hm hrow' rfl rfl
    cases hsame
    exact ⟨hsplit ▸ hredeems.append _, r, hsplit ▸ List.mem_append_left _ hdelete⟩

/-- A task that redeems a token has given it to be deleted. -/
lemma countP_deletes_pos (hp : Past (op.May env) done)
    (hl : done.any (looksUp tokenHash) = true) (ha : done.any authenticates = true) :
    1 ≤ done.countP (deletes tokenHash) := by
  obtain ⟨⟨e, r⟩, hm, he⟩ := List.any_eq_true.1 ha
  cases e with
  | authenticate c userId pubkey =>
    obtain rfl : r = true := he
    obtain ⟨f, -, -, r', hdelete⟩ := redeems_of_mem hp hl hm
    exact List.countP_pos_iff.2 ⟨_, hdelete, by simp [deletes]⟩
  | _ => cases he

end Tasks

/-! ### The history of a token -/

/-- Bytes with a given digest are drawn once. -/
lemma draws_le_one (r : (authSystem env).Run guard .empty h p) (tokenHash : Bytes32) :
    Times h (draws env tokenHash) ≤ 1 := by
  refine (r.history_invariant (fun h s => Times h (draws env tokenHash) ≤ 1 ∧
    (tokenHash ∉ s.drawn.map env.sha256 → Times h (draws env tokenHash) = 0))
    ⟨Nat.zero_le _, fun _ => rfl⟩ ?_).1
  intro h p d p' _ _ _ _ hd ⟨hle, hnone⟩
  rw [times_snoc]
  obtain ⟨hdrawn, he⟩ | ⟨token, hx, hfresh, hdrawn⟩ := drawn_step hd
  · have hno : draws env tokenHash (Did.record d) = false := by
      unfold draws
      split
      · rename_i hx
        exact absurd (congrArg Sigma.fst hx) he
      · rfl
    rw [hno, hdrawn]
    exact ⟨hle, hnone⟩
  · rw [show Did.record d = ⟨.draw, token⟩ from hx, hdrawn]
    by_cases ht : env.sha256 token = tokenHash
    · rw [hnone (ht ▸ hfresh)]
      exact ⟨by split <;> simp, fun hno => absurd (by simp [ht]) hno⟩
    · have hno : draws env tokenHash ⟨.draw, token⟩ = false := by simp [draws, ht]
      rw [hno]
      refine ⟨hle, fun hno' => hnone fun hm => hno' ?_⟩
      rw [List.map_append]
      exact List.mem_append_left _ hm

/-- A token is issued once. -/
lemma inserts_le_one (r : (authSystem env).Run guard .empty h p) (tokenHash : Bytes32) :
    Times h (inserts tokenHash) ≤ 1 := by
  have hcount := r.counts (fun _ => inserts tokenHash)
  have hdraw := r.counts (fun _ => draws env tokenHash)
  have hpast := (r.recalls (program_told env) fun _ _ => trivial).2
  have hle : (p.tasks.map fun t => t.done.countP (inserts tokenHash)).sum ≤
      (p.tasks.map fun t => t.done.countP (draws env tokenHash)).sum :=
    List.sum_le_sum fun t ht => countP_inserts_le_draws (hpast t ht).2.1
  have hone := draws_le_one r tokenHash
  rw [Times] at hone ⊢
  omega

/-- A row in the table is the one that was issued. -/
lemma issued_of_row (r : (authSystem env).Run guard .empty h p) {row : ResumeInfo}
    (hrow : p.state.db.sessionResumeTokens.get tokenHash = some row) :
    ∃ op, Happened h op ⟨.insertResumeToken tokenHash row, .ok ()⟩ := by
  refine r.history_invariant (fun h s => ∀ row, s.db.sessionResumeTokens.get tokenHash = some row →
    ∃ op, Happened h op ⟨.insertResumeToken tokenHash row, .ok ()⟩)
    (fun row hrow => by simp [AuthState.empty, Db.empty] at hrow) ?_ row hrow
  intro h p d p' _ _ _ _ hd hb row hrow
  obtain hrow' | hx := resumeTokens_step hd hrow
  · obtain ⟨op, hop⟩ := hb row hrow'
    exact ⟨op, hop.append _⟩
  · exact ⟨d.op, happened_snoc.2 (.inr ⟨rfl, hx⟩)⟩

/-- So two rows that ever stood under one hash are the same. -/
lemma row_unique (r : (authSystem env).Run guard .empty h p) {row row' : ResumeInfo} {op op' : Op}
    (hx : Happened h op ⟨.insertResumeToken tokenHash row, .ok ()⟩)
    (hy : Happened h op' ⟨.insertResumeToken tokenHash row', .ok ()⟩) : row = row' := by
  have hsame := eq_of_times (inserts_le_one r tokenHash) hx hy (by simp [inserts])
    (by simp [inserts])
  cases hsame
  rfl

/-- Where every deletion finds its row, a token is deleted no more often than it is issued. -/
lemma deletes_le_inserts (r : (authSystem env).Run Consumes .empty h p) (tokenHash : Bytes32) :
    Times h (deletes tokenHash) ≤ Times h (inserts tokenHash) := by
  refine le_of_add_le_left (r.history_invariant (fun h s => Times h (deletes tokenHash) +
    (if (s.db.sessionResumeTokens.get tokenHash).isSome then 1 else 0) ≤
      Times h (inserts tokenHash)) (by simp [Times, AuthState.empty, Db.empty]) ?_)
  intro h p d p' _ r' _ _ hd hle
  rw [times_snoc, times_snoc]
  by_cases hx : deletes tokenHash (Did.record d) = true
  · obtain ⟨op, e, inp, resp, before, after⟩ := d
    obtain rfl : e = .deleteResumeToken tokenHash := eq_of_beq hx
    obtain ⟨rfl, row, hrow, -⟩ := (r'.split (show h ++ [_] = h ++ _ :: [] from rfl)).2.1 _ _ rfl
    rw [deleteResumeToken_spec env inp hd]
    simp only [hrow, hx] at hle ⊢
    simpa using hle.trans (Nat.le_add_right _ _)
  · rw [if_neg hx, Nat.add_zero]
    cases hafter : d.after.db.sessionResumeTokens.get tokenHash with
    | none =>
      have hle' := (Nat.le_add_right _ _).trans hle
      simpa using hle'.trans (Nat.le_add_right _ _)
    | some row =>
      obtain hrow | hins := resumeTokens_step hd hafter
      · rw [hrow] at hle
        exact hle.trans (Nat.le_add_right _ _)
      · rw [show Did.record d = ⟨.insertResumeToken tokenHash row, .ok ()⟩ from hins]
        have hle' := (Nat.le_add_right _ _).trans hle
        simpa [inserts] using hle'

/-- A row that was looked up was issued. -/
lemma issued_of_lookup (r : (authSystem env).Run guard .empty h p) {op : Op} {row : ResumeInfo}
    (hx : Happened h op ⟨.selectResumeToken tokenHash, .ok (some row)⟩) :
    ∃ op, Happened h op ⟨.insertResumeToken tokenHash row, .ok ()⟩ := by
  obtain ⟨d, hd, hop, hrec⟩ := hx
  obtain ⟨pre, post, hh⟩ := List.append_of_mem hd
  obtain ⟨hd', -, p', r', hs⟩ := r.split hh
  have hrow : d.before.db.sessionResumeTokens.get tokenHash = some row := by
    obtain ⟨op, e, inp, resp, before, after⟩ := d
    cases hrec
    exact selectResumeToken_spec env inp hd'
  obtain ⟨op', hop'⟩ := issued_of_row r' (hs ▸ hrow)
  exact ⟨op', hh ▸ hop'.append _⟩

lemma countP_le_sum {α : Type} {q : α → Bool} {f : α → ℕ} {l : List α}
    (hq : ∀ a ∈ l, q a = true → 1 ≤ f a) : l.countP q ≤ (l.map f).sum := by
  induction l with
  | nil => exact Nat.zero_le _
  | cons a l ih =>
    have hrest := ih fun b hb => hq b (List.mem_cons_of_mem _ hb)
    rw [List.countP_cons, List.map_cons, List.sum_cons]
    split
    · rename_i ha
      have := hq a List.mem_cons_self ha
      omega
    · omega

/-! ### The main result -/

/-- **A resume token is good for one session.**  In every run in which each deletion of a resume
token finds its row unexpired and does not fail, a token is redeemed at most once, by its user and
under its binding, and for one new token. -/
theorem resume_tokens_single_use (env : AuthEnv) {h : List Step} {p : Tasks}
    (r : (authSystem env).Run Consumes .empty h p) : SingleUse env h p where
  once tokenHash := by
    have hpast := (r.recalls (program_told env) fun _ _ => trivial).2
    have hcount := r.counts (fun _ => deletes tokenHash)
    have hle : p.tasks.countP (redeemed tokenHash) ≤
        (p.tasks.map fun t => t.done.countP (deletes tokenHash)).sum := by
      refine countP_le_sum fun t ht hredeemed => ?_
      obtain ⟨hl, ha⟩ := Bool.and_eq_true_iff.1 hredeemed
      exact countP_deletes_pos (hpast t ht).2.1 hl ha
    have h₁ := deletes_le_inserts r tokenHash
    have h₂ := inserts_le_one r tokenHash
    rw [Times] at h₁
    omega
  issues t ht c userId pubkey ha := by
    obtain ⟨hrec, hpast, -⟩ := (r.recalls (program_told env) fun _ _ => trivial).2 t ht
    refine ⟨countP_inserts_le hpast, fun tokenHash info res hm => ?_⟩
    obtain ⟨c', f, hop, ⟨pubkey', ha'⟩, -⟩ := issued_of_mem hpast hm
    obtain ⟨l, l', hsplit⟩ := List.append_of_mem ha
    obtain ⟨c'', f', hop', rfl, -⟩ := frame_of_may (hpast l _ l' hsplit) (by simp [Effect.plain])
    cases hop.symm.trans hop'
    -- a connection authenticates as one user
    have hsame := eq_of_times ((backed_of_run r).authenticatedOnce c).1 (hrec.mem ha) (hrec.mem ha')
      (by simp [Authenticates]) (by simp [Authenticates])
    cases hsame
    rfl
  consumed t ht tokenHash hl c userId pubkey ha := by
    obtain ⟨hrec, hpast, -⟩ := (r.recalls (program_told env) fun _ _ => trivial).2 t ht
    obtain ⟨f, hop, hredeems, res, hdelete⟩ := redeems_of_mem hpast hl ha
    obtain ⟨req, bearer, info, row, t', hreq, hbearer, hruser, hselect, -, hlookup, -, hinfo, hrow,
      hepoch, hroom⟩ := hredeems.rows
    obtain ⟨d, hd, hdop, hx⟩ := hrec.mem hdelete
    obtain ⟨pre, post, hh⟩ := List.append_of_mem hd
    obtain ⟨-, hg, p', r', hs⟩ := r.split hh
    obtain ⟨rfl, row', hrow', hlt⟩ := hg _ _ hx
    obtain ⟨op₁, hop₁⟩ := issued_of_row r' (hs ▸ hrow')
    obtain ⟨op₂, hop₂⟩ := issued_of_lookup r (hrec.mem hlookup)
    have hop₁' : Happened h op₁ _ := hh ▸ hop₁.append _
    obtain rfl := row_unique r hop₁' hop₂
    exact ⟨d, hd, hdop, hx, c, f, req, bearer, info, row', hop, hreq, hbearer, hrec.mem hselect,
      hrow', hlt, hrow, hruser, hinfo, hepoch, hroom⟩
  refused t ht tokenHash e hm := by
    obtain ⟨hrec, -, -⟩ := (r.recalls (program_told env) fun _ _ => trivial).2 t ht
    obtain ⟨d, hd, -, hx⟩ := hrec.mem hm
    obtain ⟨pre, post, hh⟩ := List.append_of_mem hd
    cases ((r.split hh).2.1 _ _ hx).1

/-! ### Two connections with one token -/

/-- The condition, computed. -/
def consumesCheck (_ : List Step) : Step → Bool
  | ⟨_, .deleteResumeToken tokenHash, _, (.ok ()), before, _⟩ =>
    (before.db.sessionResumeTokens.get tokenHash).any fun row => before.now < row.expiresMs
  | ⟨_, .deleteResumeToken _, _, (.error _), _, _⟩ => false
  | _ => true

lemma consumes_of_check (hcheck : consumesCheck h d = true) : Consumes h d := by
  obtain ⟨op, e, inp, resp, before, after⟩ := d
  intro tokenHash r hx
  cases hx
  cases resp with
  | error e => cases hcheck
  | ok _ =>
    obtain ⟨row, hrow, hlt⟩ := (Option.any_eq_true _ _).1 hcheck
    exact ⟨rfl, row, hrow, of_decide_eq_true hlt⟩

namespace RacingResumes

open StolenBearer (plainEnv bytes key steps connects)

/-- A HELLO with the resume token 3. -/
def hello : Frame := { kind := .hello, hello := true, resumeToken := some (bytes 3).toList }

/-- AUTH_RESUME with the bearer 2 and the signature over the nonce `b`. -/
def resume (b : UInt8) : Frame where
  kind := .authResume
  authResume := some ⟨7, (bytes 2).toList, key.toList ++ (bytes b).toList⟩

/-- A connection is accepted and says HELLO; its nonce is `b`. -/
def greets (c i : ℕ) (b : UInt8) : List (Move Op Input) :=
  .spawn (.accept c) :: steps i 1 b ++ .spawn (.frame c hello) :: steps (i + 1) 12 b

/-- Both handlers look the token up before either deletes it, and both authenticate. -/
def race : List (Move Op Input) :=
  connects 0 0 1 ++ greets 1 3 11 ++ greets 2 5 21 ++
    .spawn (.frame 1 (resume 11)) :: .spawn (.frame 2 (resume 21)) ::
      (steps 7 8 12 ++ steps 8 8 22 ++ steps 7 7 12 ++ steps 8 7 22)

/-- A resume token is redeemed twice. -/
theorem token_redeemed_twice :
    ∃ h p, (authSystem plainEnv).Run (fun _ _ => True) .empty h p ∧ ¬SingleUse plainEnv h p := by
  obtain ⟨h, p, r, htwice⟩ := run_of_played plainEnv race (fun _ _ => true)
    (fun out => decide (1 < out.2.tasks.countP (redeemed (bytes 3)))) (fun _ _ _ => trivial)
    (by decide)
  exact ⟨h, p, r, fun hs => absurd (hs.once (bytes 3)) (Nat.not_le.2 (of_decide_eq_true htwice))⟩

/-- A session is resumed. -/
theorem resume_tokens_single_use_one : ∃ h p, (authSystem plainEnv).Run Consumes .empty h p ∧
    p.tasks.countP (redeemed (bytes 3)) = 1 ∧ SingleUse plainEnv h p := by
  obtain ⟨h, p, r, hone⟩ := run_of_played plainEnv
    (connects 0 0 1 ++ greets 1 3 11 ++ .spawn (.frame 1 (resume 11)) ::
      (steps 5 15 12 ++ steps 5 7 13)) consumesCheck
    (fun out => decide (out.2.tasks.countP (redeemed (bytes 3)) = 1))
    (fun _ _ => consumes_of_check) (by decide)
  exact ⟨h, p, r, of_decide_eq_true hone, resume_tokens_single_use plainEnv r⟩

end RacingResumes

end Locast.Auth
