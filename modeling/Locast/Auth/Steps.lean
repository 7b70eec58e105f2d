import Locast.Auth.Records

/-!
# What a step does to a connection and to the tables

The inversion lemmas of `Effect.handle`: how the state of a connection can move, and where the rows
of the tables come from.
-/

namespace Locast.Auth

open Locast.Lib Locast.Protocol

/-- An effect with its answer. -/
abbrev Record : Type := (e : Effect) × e.Resp

variable {env : AuthEnv} {e : Effect} {inp : Input} {s s' : AuthState} {r : e.Resp}

/-! ### Connections -/

/-- The connection gets its challenge. -/
def Challenges (c : ℕ) : Record → Bool
  | ⟨.challenge c' _, r⟩ => c' == c && Option.isNone r
  | _ => false

/-- The connection is authenticated. -/
def Authenticates (c : ℕ) : Record → Bool
  | ⟨.authenticate c' _ _, (r : Bool)⟩ => c' == c && r
  | _ => false

/-- How the state of a connection can move. -/
inductive ConnMoves (c : ℕ) (x : Record) (state state' : ConnState) : Prop
  | stays (hc : Challenges c x = false) (ha : Authenticates c x = false) (hs : state' = state)
  | challenged (ch : Challenge) (hx : x = ⟨.challenge c ch, none⟩) (hs : state = .new)
      (hs' : state' = .challengeSent ch)
  | authenticated (ch : Challenge) (userId : Uuid) (pubkey : PubKey)
      (hx : x = ⟨.authenticate c userId pubkey, true⟩) (hs : state = .challengeSent ch)
      (hs' : state' = .authenticated ch.sessionId userId pubkey ch.connectionEpoch)
  | closes (hc : Challenges c x = false) (ha : Authenticates c x = false) (hs : state' = .closed)

lemma conns_setConn (s : AuthState) (c c' : ℕ) (conn : Conn) :
    (s.setConn c conn).conns c' = if c' = c then conn else s.conns c' := by
  simp [AuthState.setConn, Function.update_apply]

lemma helloSection_spec (ch : Challenge) (state : ConnState) :
    (state = .new ∧ helloSection ch state = (none, .challengeSent ch)) ∨
      (state ≠ .new ∧ helloSection ch state = (some "duplicate_hello", state)) := by
  cases state with
  | new => exact .inl ⟨rfl, rfl⟩
  | _ => exact .inr ⟨by simp, rfl⟩

/-- A step that keeps the state of every connection. -/
lemma stays_setConn {c' : ℕ} {conn : Conn} {x : Record} (hc : Challenges c x = false)
    (ha : Authenticates c x = false) (hs : conn.state = (s.conns c').state) :
    ConnMoves c x (s.conns c).state ((s.setConn c' conn).conns c).state := by
  refine .stays hc ha ?_
  rw [conns_setConn]
  split
  · rename_i hcc
    rw [hs, hcc]
  · rfl

/-- **How a step moves a connection.** -/
lemma conn_step (h : Effect.handle env e inp s = some (r, s')) (c : ℕ) :
    ConnMoves c ⟨e, r⟩ (s.conns c).state (s'.conns c).state := by
  cases e with
  | challenge c' ch =>
    obtain ⟨hs, hout⟩ | ⟨hs, hout⟩ := helloSection_spec ch (s.conns c').state
    · simp only [Effect.handle, hout] at h
      cases h
      by_cases hc : c = c'
      · subst hc
        exact .challenged ch rfl hs (by simp [conns_setConn])
      · exact .stays (by simp [Challenges, Ne.symm hc]) rfl (by simp [conns_setConn, hc])
    · simp only [Effect.handle, hout] at h
      cases h
      exact stays_setConn (by simp [Challenges]) rfl rfl
  | authenticate c' userId pubkey =>
    simp only [Effect.handle] at h
    split at h
    · cases h
      exact .stays rfl (by simp [Authenticates]) rfl
    · rename_i state hstate
      cases h
      by_cases hc : c = c'
      · subst hc
        cases hs : (s.conns c).state with
        | challengeSent ch =>
          rw [hs] at hstate
          cases hstate
          exact .authenticated ch userId pubkey rfl rfl (by simp [conns_setConn])
        | _ =>
          rw [hs] at hstate
          cases hstate
      · exact .stays rfl (by simp [Authenticates, Ne.symm hc]) (by simp [conns_setConn, hc])
  | hangUp c' =>
    cases h
    by_cases hc : c = c'
    · exact .closes rfl rfl (by simp [conns_setConn, hc, ConnState.close])
    · exact .stays rfl rfl (by simp [conns_setConn, hc])
  | accept c' | receive c' =>
    simp only [Effect.handle] at h
    split at h <;> cases h
    exact stays_setConn rfl rfl rfl
  | nextFrame c' | isAuthThrottled c' | recordAuthFailure c' | upgrade c' userId pubkey =>
    cases h
    exact stays_setConn rfl rfl rfl
  | draw =>
    simp only [Effect.handle] at h
    split at h <;> cases h
    exact .stays rfl rfl rfl
  | _ =>
    simp only [Effect.handle] at h
    repeat' split at h
    all_goals cases h
    all_goals exact .stays rfl rfl rfl

/-- Who a connection is authenticated as changes only by an upgrade. -/
lemma authed_step (h : Effect.handle env e inp s = some (r, s')) (c : ℕ) :
    (s'.conns c).authed = (s.conns c).authed ∨ ∃ userId pubkey,
      (⟨e, r⟩ : Record) = ⟨.upgrade c userId pubkey, ()⟩ ∧
        (s'.conns c).authed = some (userId, pubkey) := by
  cases e with
  | upgrade c' userId pubkey =>
    cases h
    by_cases hc : c = c'
    · subst hc
      exact .inr ⟨userId, pubkey, rfl, by simp [conns_setConn]⟩
    · exact .inl (by simp [conns_setConn, hc])
  | authenticate c' userId pubkey =>
    simp only [Effect.handle] at h
    split at h <;> cases h
    · exact .inl rfl
    · exact .inl (by rw [conns_setConn]; split <;> simp_all)
  | accept c' | receive c' =>
    simp only [Effect.handle] at h
    split at h <;> cases h
    exact .inl (by rw [conns_setConn]; split <;> simp_all)
  | nextFrame c' | hangUp c' | isAuthThrottled c' | recordAuthFailure c' | challenge c' ch =>
    cases h
    exact .inl (by rw [conns_setConn]; split <;> simp_all)
  | _ =>
    simp only [Effect.handle] at h
    repeat' split at h
    all_goals cases h
    all_goals exact .inl rfl

/-! ### Identities -/

lemma upsertUser_spec (db : Db) (pubkey : PubKey) (newId : Uuid) :
    (∃ id, db.userOf pubkey = some id ∧ db.upsertUser pubkey newId = (.ok id, db)) ∨
      db.upsertUser pubkey newId = (.error .failed, db) ∨
      (db.userOf pubkey = none ∧ db.pubkeyOf newId = none ∧
        db.upsertUser pubkey newId =
          (.ok newId, { db with userIdentities := db.userIdentities ++ [⟨newId, pubkey⟩] })) := by
  unfold Db.upsertUser
  split
  · rename_i id hid
    exact .inl ⟨id, hid, rfl⟩
  · rename_i hnone
    split
    · exact .inr (.inl rfl)
    · rename_i hfree
      exact .inr (.inr ⟨hnone, by simpa using hfree, rfl⟩)

lemma insertBearer_spec (db : Db) (tokenHash : Bytes32) (userId : Uuid) (expiresMs : ℤ)
    (connectionEpoch : ℕ) (roomId : Option Uuid) :
    db.insertBearer tokenHash userId expiresMs connectionEpoch roomId = (.error .failed, db) ∨
      ∃ pubkey, db.pubkeyOf userId = some pubkey ∧
        db.insertBearer tokenHash userId expiresMs connectionEpoch roomId =
          (.ok (), ⟨db.userIdentities, db.bannedPubkeys, db.bearerTokens.insert tokenHash
            ⟨userId, pubkey, expiresMs, connectionEpoch, roomId⟩, db.sessionResumeTokens⟩) := by
  unfold Db.insertBearer
  split
  · exact .inl rfl
  · rename_i pubkey hpubkey
    split
    · exact .inl rfl
    · exact .inr ⟨pubkey, hpubkey, rfl⟩

/-- The identities only grow, one new key and one new id at a time. -/
lemma identities_step (h : Effect.handle env e inp s = some (r, s')) :
    s'.db.userIdentities = s.db.userIdentities ∨ ∃ pubkey userId,
      s.db.userOf pubkey = none ∧ s.db.pubkeyOf userId = none ∧
        s'.db.userIdentities = s.db.userIdentities ++ [⟨userId, pubkey⟩] := by
  cases e with
  | upsertUser pubkey =>
    simp only [Effect.handle] at h
    split at h
    · cases h
      exact .inl rfl
    · obtain ⟨id, -, hout⟩ | hout | ⟨hu, hp, hout⟩ := upsertUser_spec s.db pubkey inp.id
      · rw [hout] at h
        cases h
        exact .inl rfl
      · rw [hout] at h
        cases h
        exact .inl rfl
      · rw [hout] at h
        cases h
        exact .inr ⟨pubkey, inp.id, hu, hp, rfl⟩
  | insertBearer tokenHash userId expiresMs connectionEpoch roomId =>
    simp only [Effect.handle] at h
    split at h
    · cases h
      exact .inl rfl
    · obtain hout | ⟨pk, -, hout⟩ := insertBearer_spec s.db tokenHash userId expiresMs
        connectionEpoch roomId
      all_goals
        rw [hout] at h
        cases h
        exact .inl rfl
  | renewBearer tokenHash newExpiry nowMs =>
    simp only [Effect.handle, Db.renewBearer] at h
    repeat' split at h
    all_goals cases h
    all_goals exact .inl rfl
  | _ =>
    simp only [Effect.handle] at h
    repeat' split at h
    all_goals cases h
    all_goals exact .inl rfl

/-- What `upsert_user` answers is what the store holds from then on. -/
lemma upserted (env : AuthEnv) (inp : Input) {pubkey : PubKey} {userId : Uuid}
    (h : Effect.handle env (.upsertUser pubkey) inp s = some (.ok userId, s')) :
    ⟨userId, pubkey⟩ ∈ s'.db.userIdentities := by
  simp only [Effect.handle] at h
  split at h
  · cases h
  · obtain ⟨id, hid, hout⟩ | hout | ⟨-, -, hout⟩ := upsertUser_spec s.db pubkey inp.id
    · rw [hout] at h
      cases h
      obtain ⟨i, hi, hu⟩ := Option.map_eq_some_iff.1 hid
      have hkey := List.find?_some hi
      obtain rfl := eq_of_beq hkey
      exact hu ▸ List.mem_of_find?_eq_some hi
    · rw [hout] at h
      cases h
    · rw [hout] at h
      cases h
      simp

/-! ### Tokens -/

lemma selectBearer_spec (env : AuthEnv) (inp : Input) {tokenHash : Bytes32} {row : BearerInfo}
    (h : Effect.handle env (.selectBearer tokenHash) inp s = some (.ok (some row), s')) :
    s.db.bearerTokens.get tokenHash = some row ∧ s' = s := by
  have hr : (if inp.fails then Except.error SqlError.failed
      else Except.ok (s.db.bearerTokens.get tokenHash)) = Except.ok (some row) :=
    (Prod.mk.inj (Option.some.inj h)).1
  have hs : s = s' := (Prod.mk.inj (Option.some.inj h)).2
  split at hr
  · cases hr
  · exact ⟨Except.ok.inj hr, hs.symm⟩

lemma selectResumeToken_spec (env : AuthEnv) (inp : Input) {tokenHash : Bytes32}
    {row : ResumeInfo}
    (h : Effect.handle env (.selectResumeToken tokenHash) inp s = some (.ok (some row), s')) :
    s.db.sessionResumeTokens.get tokenHash = some row := by
  have hr : (if inp.fails then Except.error SqlError.failed
      else Except.ok (s.db.sessionResumeTokens.get tokenHash)) = Except.ok (some row) :=
    (Prod.mk.inj (Option.some.inj h)).1
  split at hr
  · cases hr
  · exact Except.ok.inj hr

lemma receive_spec (env : AuthEnv) (inp : Input) {c : ℕ} {authed : Option (Uuid × PubKey)}
    {deadline : ℤ}
    (h : Effect.handle env (.receive c) inp s = some ((authed, deadline), s')) :
    (s.conns c).authed = authed ∧ (s'.conns c).authed = authed := by
  simp only [Effect.handle] at h
  split at h
  · obtain ⟨hr, rfl⟩ := Prod.mk.inj (Option.some.inj h)
    exact ⟨congrArg Prod.fst hr, by simpa [conns_setConn] using congrArg Prod.fst hr⟩
  · cases h

/-- Where a bearer's row comes from: only its expiry is ever changed. -/
lemma bearers_step (h : Effect.handle env e inp s = some (r, s')) {tokenHash : Bytes32}
    {row : BearerInfo} (hrow : s'.db.bearerTokens.get tokenHash = some row) :
    (∃ row₀ expiresMs, s.db.bearerTokens.get tokenHash = some row₀ ∧
      row = { row₀ with expiresMs }) ∨
      ((⟨e, r⟩ : Record) = ⟨.insertBearer tokenHash row.userId row.expiresMs row.connectionEpoch
        row.roomId, .ok ()⟩ ∧ s.db.pubkeyOf row.userId = some row.pubkey) := by
  have same (hs : s'.db.bearerTokens = s.db.bearerTokens) :
      ∃ row₀ expiresMs, s.db.bearerTokens.get tokenHash = some row₀ ∧
        row = { row₀ with expiresMs } := ⟨row, row.expiresMs, hs ▸ hrow, rfl⟩
  cases e with
  | insertBearer tokenHash' userId expiresMs connectionEpoch roomId =>
    simp only [Effect.handle] at h
    split at h
    · cases h
      exact .inl (same rfl)
    · obtain hout | ⟨pk, hpk, hout⟩ := insertBearer_spec s.db tokenHash' userId expiresMs
        connectionEpoch roomId
      · rw [hout] at h
        cases h
        exact .inl (same rfl)
      · rw [hout] at h
        cases h
        simp only [AList.get_insert] at hrow
        split at hrow
        · rename_i hkey
          cases hrow
          exact .inr ⟨by rw [hkey], hpk⟩
        · exact .inl ⟨row, row.expiresMs, hrow, rfl⟩
  | renewBearer tokenHash' newExpiry nowMs =>
    simp only [Effect.handle, Db.renewBearer] at h
    split at h
    · cases h
      exact .inl (same rfl)
    · split at h
      · cases h
        exact .inl (same rfl)
      · rename_i old hold
        split at h
        · cases h
          simp only [AList.get_insert] at hrow
          split at hrow
          · rename_i hkey
            cases hrow
            exact .inl ⟨old, newExpiry, hkey ▸ hold, rfl⟩
          · exact .inl ⟨row, row.expiresMs, hrow, rfl⟩
        · cases h
          exact .inl (same rfl)
  | revokeBearer tokenHash' =>
    simp only [Effect.handle, Db.revokeBearer] at h
    split at h <;> cases h
    · exact .inl (same rfl)
    · simp only [AList.get_erase] at hrow
      split at hrow
      · cases hrow
      · exact .inl ⟨row, row.expiresMs, hrow, rfl⟩
  | purgeExpiredBearers nowMs =>
    simp only [Effect.handle, Db.purgeExpiredBearers] at h
    split at h <;> cases h
    · exact .inl (same rfl)
    · simp only [AList.get_keep, Option.filter_eq_some_iff] at hrow
      exact .inl ⟨row, row.expiresMs, hrow.1, rfl⟩
  | upsertUser pubkey =>
    simp only [Effect.handle] at h
    split at h
    · cases h
      exact .inl (same rfl)
    · obtain ⟨id, -, hout⟩ | hout | ⟨-, -, hout⟩ := upsertUser_spec s.db pubkey inp.id
      all_goals
        rw [hout] at h
        cases h
        exact .inl (same rfl)
  | _ =>
    simp only [Effect.handle] at h
    repeat' split at h
    all_goals cases h
    all_goals exact .inl (same rfl)

/-- Where a resume token's row comes from. -/
lemma resumeTokens_step (h : Effect.handle env e inp s = some (r, s')) {tokenHash : Bytes32}
    {row : ResumeInfo} (hrow : s'.db.sessionResumeTokens.get tokenHash = some row) :
    s.db.sessionResumeTokens.get tokenHash = some row ∨
      (⟨e, r⟩ : Record) = ⟨.insertResumeToken tokenHash row, .ok ()⟩ := by
  cases e with
  | insertResumeToken tokenHash' info =>
    simp only [Effect.handle, Db.insertResumeToken] at h
    split at h <;> cases h
    · exact .inl hrow
    · simp only [AList.get_insert] at hrow
      split at hrow
      · rename_i hkey
        cases hrow
        exact .inr (by rw [hkey])
      · exact .inl hrow
  | deleteResumeToken tokenHash' =>
    simp only [Effect.handle, Db.deleteResumeToken] at h
    split at h <;> cases h
    · exact .inl hrow
    · simp only [AList.get_erase] at hrow
      split at hrow
      · cases hrow
      · exact .inl hrow
  | purgeExpiredResumeTokens nowMs =>
    simp only [Effect.handle, Db.purgeExpiredResumeTokens] at h
    split at h <;> cases h
    · exact .inl hrow
    · simp only [AList.get_keep, Option.filter_eq_some_iff] at hrow
      exact .inl hrow.1
  | insertBearer tokenHash' userId expiresMs connectionEpoch roomId =>
    simp only [Effect.handle] at h
    split at h
    · cases h
      exact .inl hrow
    · obtain hout | ⟨pk, -, hout⟩ := insertBearer_spec s.db tokenHash' userId expiresMs
        connectionEpoch roomId
      all_goals
        rw [hout] at h
        cases h
        exact .inl hrow
  | renewBearer tokenHash' newExpiry nowMs =>
    simp only [Effect.handle, Db.renewBearer] at h
    repeat' split at h
    all_goals cases h
    all_goals exact .inl hrow
  | upsertUser pubkey =>
    simp only [Effect.handle] at h
    split at h
    · cases h
      exact .inl hrow
    · obtain ⟨id, -, hout⟩ | hout | ⟨-, -, hout⟩ := upsertUser_spec s.db pubkey inp.id
      all_goals
        rw [hout] at h
        cases h
        exact .inl hrow
  | _ =>
    simp only [Effect.handle] at h
    repeat' split at h
    all_goals cases h
    all_goals exact .inl hrow

lemma deleteResumeToken_spec (env : AuthEnv) (inp : Input) {tokenHash : Bytes32}
    (h : Effect.handle env (.deleteResumeToken tokenHash) inp s = some (.ok (), s')) :
    s'.db.sessionResumeTokens.get tokenHash = none := by
  simp only [Effect.handle, Db.deleteResumeToken] at h
  split at h
  · cases h
  · cases h
    simp [AList.get_erase]

/-! ### Random bytes -/

/-- The digest of what is drawn is new. -/
lemma drawn_step (h : Effect.handle env e inp s = some (r, s')) :
    (s'.drawn = s.drawn ∧ e ≠ .draw) ∨ ∃ token : Bytes32, (⟨e, r⟩ : Record) = ⟨.draw, token⟩ ∧
      env.sha256 token ∉ s.drawn.map env.sha256 ∧ s'.drawn = s.drawn ++ [token] := by
  cases e with
  | draw =>
    simp only [Effect.handle] at h
    split at h
    · cases h
    · rename_i hfresh
      cases h
      exact .inr ⟨inp.random, rfl, fun hm => hfresh (.inr hm), rfl⟩
  | authenticate c userId pubkey =>
    simp only [Effect.handle] at h
    split at h <;> cases h <;> exact .inl ⟨rfl, by simp⟩
  | _ =>
    simp only [Effect.handle] at h
    repeat' split at h
    all_goals cases h
    all_goals exact .inl ⟨rfl, by simp⟩

end Locast.Auth
