import Locast.Auth.Steps

/-!
# The state of a connection is backed by what happened

`Backed` ties the shared state to the history of a run: a challenge stands for the HELLO that drew
its nonce, an authenticated connection for one verified signature, a bearer's row for the connection
that minted it.
-/

namespace Locast.Auth

open Locast.Lib Locast.Protocol
open Locast.Lib.System (Run Did.record Handled Recorded)

/-- The operation has done this. -/
def Happened (h : List Step) (op : Op) (x : Record) : Prop := ∃ d ∈ h, d.op = op ∧ Did.record d = x

/-- A frame of the connection has done this. -/
def HappenedOn (h : List Step) (c : ℕ) (x : Record) : Prop := ∃ f, Happened h (.frame c f) x

/-- How often something of a kind happened. -/
def Times (h : List Step) (kind : Record → Bool) : ℕ := h.countP fun d => kind (Did.record d)

variable {env : AuthEnv} {guard : List Step → Step → Prop} {h : List Step} {p : Tasks} {d : Step}
  {c : ℕ} {op : Op} {x : Record}

lemma Happened.append (hx : Happened h op x) (l : List Step) : Happened (h ++ l) op x :=
  let ⟨d, hd, hop, hrec⟩ := hx
  ⟨d, List.mem_append_left _ hd, hop, hrec⟩

lemma HappenedOn.append (hx : HappenedOn h c x) (l : List Step) : HappenedOn (h ++ l) c x :=
  let ⟨f, hf⟩ := hx
  ⟨f, hf.append l⟩

lemma happened_snoc : Happened (h ++ [d]) op x ↔ Happened h op x ∨
    (d.op = op ∧ Did.record d = x) := by
  simp only [Happened, List.mem_append, List.mem_singleton, or_and_right, exists_or, exists_eq_left]

lemma times_snoc {kind : Record → Bool} :
    Times (h ++ [d]) kind = Times h kind + if kind (Did.record d) then 1 else 0 := by
  simp [Times, List.countP_append, List.countP_singleton]

/-- What happens at most once happens in one way. -/
lemma eq_of_times {kind : Record → Bool} {op' : Op} {y : Record} (hle : Times h kind ≤ 1)
    (hx : Happened h op x) (hy : Happened h op' y) (hkx : kind x = true) (hky : kind y = true) :
    x = y := by
  obtain ⟨d, hd, -, rfl⟩ := hx
  obtain ⟨d', hd', -, rfl⟩ := hy
  rw [eq_of_countP_le_one hle hd hd' hkx hky]

/-! ### What stands before a step -/

/-- What the task of a step had behind it. -/
lemma recalled (r : (authSystem env).Run guard .empty h p) {pre post : List Step}
    (hh : h = pre ++ d :: post) :
    ∃ done, Recorded pre d.op done ∧ Past (d.op.May env) done ∧ d.op.May env done d.effect :=
  (r.recalls (program_told env) fun _ _ => trivial).1 pre d post hh

/-- An effect that is not plain is one of a frame. -/
lemma frame_of_may {done : Done} {e : Effect} (h : op.May env done e) (he : ¬e.plain) :
    ∃ c f, op = .frame c f ∧ FrameMay env c f done e := by
  cases op with
  | frame c f => exact ⟨c, f, rfl, h⟩
  | _ => exact absurd h he

/-! ### The invariant -/

structure Backed (h : List Step) (s : AuthState) : Prop where
  challenged : ∀ {c ch}, (s.conns c).state = .challengeSent ch →
    ∃ op, Happened h op ⟨.challenge c ch, none⟩
  challengedOnce : ∀ c, Times h (Challenges c) ≤ 1 ∧
    ((s.conns c).state = .new → Times h (Challenges c) = 0)
  authenticatedOnce : ∀ c, Times h (Authenticates c) ≤ 1 ∧
    ((s.conns c).state = .new ∨ (∃ ch, (s.conns c).state = .challengeSent ch) →
      Times h (Authenticates c) = 0)
  authed : ∀ {c userId pubkey}, (s.conns c).authed = some (userId, pubkey) →
    ∃ op, Happened h op ⟨.authenticate c userId pubkey, true⟩
  received : ∀ {op c userId pubkey deadline},
    Happened h op ⟨.receive c, (some (userId, pubkey), deadline)⟩ →
      (s.conns c).authed = some (userId, pubkey)
  users : (s.db.userIdentities.map Identity.userId).Nodup
  pubkeys : (s.db.userIdentities.map Identity.pubkey).Nodup
  upserted : ∀ {op userId pubkey}, Happened h op ⟨.upsertUser pubkey, .ok userId⟩ →
    ⟨userId, pubkey⟩ ∈ s.db.userIdentities
  authenticated : ∀ {op c userId pubkey}, Happened h op ⟨.authenticate c userId pubkey, true⟩ →
    ⟨userId, pubkey⟩ ∈ s.db.userIdentities
  bearers : ∀ {tokenHash row}, s.db.bearerTokens.get tokenHash = some row →
    ⟨row.userId, row.pubkey⟩ ∈ s.db.userIdentities ∧ ∃ op expiresMs, Happened h op
      ⟨.insertBearer tokenHash row.userId expiresMs row.connectionEpoch row.roomId, .ok ()⟩
  selected : ∀ {op tokenHash row}, Happened h op ⟨.selectBearer tokenHash, .ok (some row)⟩ →
    ⟨row.userId, row.pubkey⟩ ∈ s.db.userIdentities

lemma backed_empty : Backed [] .empty where
  challenged hs := by cases hs
  challengedOnce c := ⟨Nat.zero_le _, fun _ => rfl⟩
  authenticatedOnce c := ⟨Nat.zero_le _, fun _ => rfl⟩
  authed hs := by cases hs
  received hx := by simp [Happened] at hx
  users := List.nodup_nil
  pubkeys := List.nodup_nil
  upserted hx := by simp [Happened] at hx
  authenticated hx := by simp [Happened] at hx
  bearers hrow := by simp [AuthState.empty, Db.empty] at hrow
  selected hx := by simp [Happened] at hx

/-! ### Its steps -/

section Step

variable {b : AuthState}

/-- The identities are never forgotten. -/
lemma identities_mono (hd : (authSystem env).Handled d) {i : Identity}
    (hi : i ∈ d.before.db.userIdentities) : i ∈ d.after.db.userIdentities := by
  obtain heq | ⟨pubkey, userId, -, -, heq⟩ := identities_step hd
  · rwa [heq]
  · rw [heq]
    exact List.mem_append_left _ hi

lemma mem_of_pubkeyOf {db : Db} {userId : Uuid} {pubkey : PubKey}
    (h : db.pubkeyOf userId = some pubkey) : ⟨userId, pubkey⟩ ∈ db.userIdentities := by
  obtain ⟨i, hi, rfl⟩ := Option.map_eq_some_iff.1 h
  have hu := List.find?_some hi
  obtain rfl := eq_of_beq hu
  exact List.mem_of_find?_eq_some hi

lemma notMem_users {db : Db} {userId : Uuid} (h : db.pubkeyOf userId = none) :
    userId ∉ db.userIdentities.map Identity.userId := by
  intro hm
  obtain ⟨i, hi, rfl⟩ := List.mem_map.1 hm
  have hnone := List.find?_eq_none.1 (Option.map_eq_none_iff.1 h) i hi
  simp at hnone

lemma notMem_pubkeys {db : Db} {pubkey : PubKey} (h : db.userOf pubkey = none) :
    pubkey ∉ db.userIdentities.map Identity.pubkey := by
  intro hm
  obtain ⟨i, hi, rfl⟩ := List.mem_map.1 hm
  have hnone := List.find?_eq_none.1 (Option.map_eq_none_iff.1 h) i hi
  simp at hnone

/-- What a step that read a bearer found. -/
lemma selected_spec (hd : (authSystem env).Handled d) {tokenHash : Bytes32} {row : BearerInfo}
    (hx : Did.record d = ⟨.selectBearer tokenHash, .ok (some row)⟩) :
    d.before.db.bearerTokens.get tokenHash = some row ∧ d.after = d.before := by
  obtain ⟨op, e, inp, r, before, after⟩ := d
  cases hx
  exact selectBearer_spec env inp hd

/-- Who a frame was received from. -/
lemma received_spec (hd : (authSystem env).Handled d) {authed : Option (Uuid × PubKey)}
    {deadline : ℤ} (hx : Did.record d = ⟨.receive c, (authed, deadline)⟩) :
    (d.before.conns c).authed = authed ∧ (d.after.conns c).authed = authed := by
  obtain ⟨op, e, inp, r, before, after⟩ := d
  cases hx
  exact receive_spec env inp hd

lemma upserted_spec (hd : (authSystem env).Handled d) {userId : Uuid} {pubkey : PubKey}
    (hx : Did.record d = ⟨.upsertUser pubkey, .ok userId⟩) :
    ⟨userId, pubkey⟩ ∈ d.after.db.userIdentities := by
  obtain ⟨op, e, inp, r, before, after⟩ := d
  cases hx
  exact upserted env inp hd

/-- Behind an upgrade stands the transition to `Authenticated`. -/
lemma behind_upgrade {done : Done} (hrec : Recorded h d.op done) (hmay : d.op.May env done d.effect)
    {userId : Uuid} {pubkey : PubKey} (hx : Did.record d = ⟨.upgrade c userId pubkey, ()⟩) :
    Happened h d.op ⟨.authenticate c userId pubkey, true⟩ := by
  obtain ⟨op, e, inp, r, before, after⟩ := d
  cases hx
  obtain ⟨c', f, rfl, rfl, hm⟩ := frame_of_may hmay (by simp [Effect.plain])
  exact hrec.mem hm

/-- Behind a transition to `Authenticated` stands what the store knows. -/
lemma behind_authenticate (hb : Backed h d.before) {done : Done} (hrec : Recorded h d.op done)
    (hmay : d.op.May env done d.effect) {userId : Uuid} {pubkey : PubKey}
    (hx : Did.record d = ⟨.authenticate c userId pubkey, true⟩) :
    ⟨userId, pubkey⟩ ∈ d.before.db.userIdentities := by
  obtain ⟨op, e, inp, r, before, after⟩ := d
  cases hx
  obtain ⟨c', f, rfl, rfl, ⟨ch, hproven⟩, -⟩ := frame_of_may hmay (by simp [Effect.plain])
  rcases hproven.known with hm | ⟨tokenHash, info, hm, rfl, rfl⟩
  · exact hb.upserted (hrec.mem hm)
  · exact hb.selected (hrec.mem hm)

/-- **A step keeps the backing.** -/
lemma Backed.step (hb : Backed h d.before) (hd : (authSystem env).Handled d) {done : Done}
    (hrec : Recorded h d.op done) (hmay : d.op.May env done d.effect) :
    Backed (h ++ [d]) d.after where
  challenged {c ch} hs := by
    cases conn_step hd c with
    | stays hc ha heq =>
      obtain ⟨op, hop⟩ := hb.challenged (heq ▸ hs)
      exact ⟨op, hop.append _⟩
    | challenged ch' hx _ hs' =>
      cases hs.symm.trans hs'
      exact ⟨d.op, happened_snoc.2 (.inr ⟨rfl, hx⟩)⟩
    | authenticated ch' u pk hx _ hs' => cases hs.symm.trans hs'
    | closes hc ha hs' => cases hs.symm.trans hs'
  challengedOnce c := by
    obtain ⟨hle, hnew⟩ := hb.challengedOnce c
    rw [times_snoc]
    cases conn_step hd c with
    | stays hc ha heq =>
      rw [show Did.record d = ⟨d.effect, d.resp⟩ from rfl, hc, heq]
      exact ⟨hle, hnew⟩
    | challenged ch' hx hs hs' =>
      rw [hnew hs, hs']
      exact ⟨by split <;> simp, fun h => ConnState.noConfusion h⟩
    | authenticated ch' u pk hx _ hs' =>
      rw [show Did.record d = ⟨.authenticate c u pk, true⟩ from hx, hs']
      exact ⟨hle, fun h => ConnState.noConfusion h⟩
    | closes hc ha hs' =>
      rw [show Did.record d = ⟨d.effect, d.resp⟩ from rfl, hc, hs']
      exact ⟨hle, fun h => ConnState.noConfusion h⟩
  authenticatedOnce c := by
    obtain ⟨hle, hnew⟩ := hb.authenticatedOnce c
    rw [times_snoc]
    cases conn_step hd c with
    | stays hc ha heq =>
      rw [show Did.record d = ⟨d.effect, d.resp⟩ from rfl, ha, heq]
      exact ⟨hle, hnew⟩
    | challenged ch' hx hs hs' =>
      rw [show Did.record d = ⟨.challenge c ch', none⟩ from hx, hnew (.inl hs)]
      exact ⟨Nat.zero_le _, fun _ => rfl⟩
    | authenticated ch' u pk hx hs hs' =>
      rw [hnew (.inr ⟨ch', hs⟩), hs']
      exact ⟨by split <;> simp, fun h => by rcases h with h | ⟨ch, h⟩ <;> cases h⟩
    | closes hc ha hs' =>
      rw [show Did.record d = ⟨d.effect, d.resp⟩ from rfl, ha, hs']
      exact ⟨hle, fun h => by rcases h with h | ⟨ch, h⟩ <;> cases h⟩
  authed {c userId pubkey} hs := by
    obtain heq | ⟨u, pk, hx, heq⟩ := authed_step hd c
    · obtain ⟨op, hop⟩ := hb.authed (heq ▸ hs)
      exact ⟨op, hop.append _⟩
    · cases hs.symm.trans heq
      exact ⟨d.op, (behind_upgrade hrec hmay hx).append _⟩
  received {op c userId pubkey deadline} hx := by
    rcases happened_snoc.1 hx with hx | ⟨-, hx⟩
    · have hs := hb.received hx
      obtain heq | ⟨u, pk, hu, heq⟩ := authed_step hd c
      · rw [heq, hs]
      · obtain ⟨op', hop'⟩ := hb.authed hs
        -- both users were authenticated on this connection, which happens once
        have hsame := eq_of_times (hb.authenticatedOnce c).1 hop' (behind_upgrade hrec hmay hu)
          (by simp [Authenticates]) (by simp [Authenticates])
        cases hsame
        exact heq
    · exact (received_spec hd hx).2
  users := by
    obtain heq | ⟨pubkey, userId, -, hp, heq⟩ := identities_step hd
    · exact heq ▸ hb.users
    · rw [heq, List.map_append]
      exact List.nodup_append_comm.1 (List.nodup_cons.2 ⟨notMem_users hp, hb.users⟩)
  pubkeys := by
    obtain heq | ⟨pubkey, userId, hu, -, heq⟩ := identities_step hd
    · exact heq ▸ hb.pubkeys
    · rw [heq, List.map_append]
      exact List.nodup_append_comm.1 (List.nodup_cons.2 ⟨notMem_pubkeys hu, hb.pubkeys⟩)
  upserted {op userId pubkey} hx := by
    rcases happened_snoc.1 hx with hx | ⟨-, hx⟩
    · exact identities_mono hd (hb.upserted hx)
    · exact upserted_spec hd hx
  authenticated {op c userId pubkey} hx := by
    rcases happened_snoc.1 hx with hx | ⟨-, hx⟩
    · exact identities_mono hd (hb.authenticated hx)
    · exact identities_mono hd (behind_authenticate hb hrec hmay hx)
  bearers {tokenHash row} hrow := by
    obtain ⟨row₀, expiresMs, hrow₀, rfl⟩ | ⟨hx, hu⟩ := bearers_step hd hrow
    · obtain ⟨hi, op, e, hop⟩ := hb.bearers hrow₀
      exact ⟨identities_mono hd hi, op, e, hop.append _⟩
    · exact ⟨identities_mono hd (mem_of_pubkeyOf hu), d.op, row.expiresMs,
        happened_snoc.2 (.inr ⟨rfl, hx⟩)⟩
  selected {op tokenHash row} hx := by
    rcases happened_snoc.1 hx with hx | ⟨-, hx⟩
    · exact identities_mono hd (hb.selected hx)
    · obtain ⟨hrow, hs⟩ := selected_spec hd hx
      exact hs ▸ (hb.bearers hrow).1

end Step

end Locast.Auth
