import Locast.Client.TrustAnchor
import Locast.Lib.Base64Url
import Locast.Lib.StrSlice
import Locast.Lib.Unicode
import Locast.Library.Range

/-!
# Invite links (`room/invite.rs`, `room/host.rs`)

A link carries the code of a room and the key its manifests are trusted by.  The parser reads the
scheme, the first segment of the path and the query; the host, the rest of the path, a second key
and an unknown version it takes as they come.
-/

namespace Locast.Client.InviteLink

open Locast.Lib Locast.Protocol

/-! ### The parser -/

/-- What the `url` crate makes of a link; the query is decoded. -/
structure Url where
  scheme : List Char
  host : Option (List Char)
  path : List Char
  queryPairs : List (List Char × List Char)

structure ParsedInvite where
  roomCode : List Char
  hostPubkey : PubKey
  version : Option ℕ

/-- `u32::from_str`. -/
def parseU32 (t : List Char) : Option ℕ := (Library.parseU64 t).toOption.filter (· < 2 ^ 32)

/-- The segments of a path that are not empty. -/
def segments (path : List Char) : List (List Char) := (path.splitOn '/').filter (· ≠ [])

/-- A later `h` stands for an earlier one, and a later `v` too, even one that is no number. -/
def readPairs : List (List Char × List Char) → Option PubKey × Option ℕ →
    Except InviteError (Option PubKey × Option ℕ)
  | [], found => .ok found
  | (k, v) :: rest, found =>
    if k = ['h'] then
      match Base64Url.decode v with
      | none => .error .hDecode
      | some bytes =>
        match sized 32 bytes with
        | none => .error (.hWrongLength bytes.length)
        | some key => readPairs rest (some key, found.2)
    else if k = ['v'] then readPairs rest (found.1, parseU32 v)
    else readPairs rest found

variable (parseUrl : List Char → Except String Url)

/-- `parse_invite`. -/
def parseInvite (scheme url : List Char) : Except InviteError ParsedInvite :=
  if url = [] then .error (.urlParse "empty")
  else match parseUrl url with
    | .error e => .error (.urlParse e)
    | .ok parsed =>
      if parsed.scheme ≠ scheme ∧ parsed.scheme ≠ "locast".toList then .error .notLocast
      else match segments parsed.path with
        | [] => .error .missingRoomCode
        | code :: _ =>
          if byteLen code ≠ 6 then .error (.badRoomCodeLength (byteLen code))
          else match readPairs parsed.queryPairs (none, none) with
            | .error e => .error e
            | .ok (none, _) => .error .missingH
            | .ok (some key, version) => .ok ⟨code, key, version⟩

inductive HostError where
  | inviteUrl (detail : String)

/-- `build_invite_h_param`. -/
def buildInviteHParam (hostPubkey : PubKey) : List Char := Base64Url.encode hostPubkey.toList

/-- `build_invite_url`. -/
def buildInviteUrl (scheme roomCode : List Char) (hostPubkey : PubKey) :
    Except HostError (List Char) :=
  if roomCode = [] then .error (.inviteUrl "empty room code")
  else .ok (scheme ++ "://join/".toList ++ roomCode ++ "?h=".toList ++
    buildInviteHParam hostPubkey ++ "&v=1".toList)

/-! ### What a link says -/

/-- The values of a name, in their order. -/
def values (name : List Char) (pairs : List (List Char × List Char)) : List (List Char) :=
  (pairs.filter (·.1 = name)).map (·.2)

/-- The key that a value stands for. -/
def keyOf (h : List Char) : Option PubKey := (Base64Url.decode h).bind (sized 32)

/-- **What a strict parser returns**: the values of a link of the canonical shape. -/
structure Returns (scheme : List Char) (parsed : Url) (invite : ParsedInvite) : Prop where
  scheme : parsed.scheme = scheme ∨ parsed.scheme = "locast".toList
  host : parsed.host = some "join".toList
  path : parsed.path = '/' :: invite.roomCode
  oneSegment : '/' ∉ invite.roomCode
  sixChars : invite.roomCode.length = 6
  key : ∃ h, values ['h'] parsed.queryPairs = [h] ∧ keyOf h = some invite.hostPubkey
  version : values ['v'] parsed.queryPairs = [] ∧ invite.version = none ∨
    ∃ v, values ['v'] parsed.queryPairs = [v] ∧ parseU32 v = some 1 ∧ invite.version = some 1

/-- **The parser is strict about a string.** -/
def Strict (scheme url : List Char) : Prop :=
  ∀ invite, parseInvite parseUrl scheme url = .ok invite →
    ∃ parsed, parseUrl url = .ok parsed ∧ Returns scheme parsed invite

/-- What is looked at. -/
structure LookedAt (scheme : List Char) (parsed : Url) : Prop where
  scheme : parsed.scheme = scheme ∨ parsed.scheme = "locast".toList
  code : ∃ code rest, segments parsed.path = code :: rest ∧ byteLen code = 6
  someKey : values ['h'] parsed.queryPairs ≠ []
  keys : ∀ h ∈ values ['h'] parsed.queryPairs, (keyOf h).isSome

/-- What is not. -/
structure Unchecked (parsed : Url) : Prop where
  host : parsed.host = some "join".toList
  path : ∃ code, '/' ∉ code ∧ parsed.path = '/' :: code
  oneKey : (values ['h'] parsed.queryPairs).length = 1
  version : values ['v'] parsed.queryPairs = [] ∨
    ∃ v, values ['v'] parsed.queryPairs = [v] ∧ parseU32 v = some 1

/-! ### What is accepted -/

variable {parseUrl}

lemma values_cons_self (name v : List Char) (rest : List (List Char × List Char)) :
    values name ((name, v) :: rest) = v :: values name rest := by
  simp [values]

lemma values_cons_of_ne {name k : List Char} (h : k ≠ name) (v : List Char)
    (rest : List (List Char × List Char)) : values name ((k, v) :: rest) = values name rest := by
  simp [values, h]

/-- **The last one counts.** -/
lemma readPairs_eq_ok {pairs : List (List Char × List Char)}
    {found result : Option PubKey × Option ℕ} :
    readPairs pairs found = .ok result ↔
      (∀ h ∈ values ['h'] pairs, (keyOf h).isSome) ∧
        result = ((values ['h'] pairs).foldl (fun _ h => keyOf h) found.1,
          (values ['v'] pairs).foldl (fun _ v => parseU32 v) found.2) := by
  induction pairs generalizing found with
  | nil => exact ⟨fun h => ⟨fun _ hmem => absurd hmem List.not_mem_nil, (Except.ok.inj h).symm⟩,
      fun h => congrArg Except.ok h.2.symm⟩
  | cons p rest ih =>
    obtain ⟨k, v⟩ := p
    rw [readPairs]
    by_cases hh : k = ['h']
    · subst hh
      have hv : (['h'] : List Char) ≠ ['v'] := by decide
      rw [if_pos rfl, values_cons_self, values_cons_of_ne hv]
      cases hdec : Base64Url.decode v with
      | none => simp [keyOf, hdec]
      | some bytes =>
        cases hsized : sized 32 bytes with
        | none => simp [keyOf, hdec, hsized]
        | some key =>
          have hkey : keyOf v = some key := by rw [keyOf, hdec, Option.bind_some, hsized]
          simp only [hsized, ih, List.forall_mem_cons, List.foldl_cons, hkey,
            Option.isSome_some, true_and]
    · rw [if_neg hh, values_cons_of_ne hh]
      by_cases hv : k = ['v']
      · subst hv
        rw [if_pos rfl, values_cons_self, ih, List.foldl_cons]
      · rw [if_neg hv, values_cons_of_ne hv, ih]

/-- **What is accepted**, and what it gives. -/
lemma parseInvite_eq_ok {scheme url : List Char} {invite : ParsedInvite} :
    parseInvite parseUrl scheme url = .ok invite ↔
      url ≠ [] ∧ ∃ parsed, parseUrl url = .ok parsed ∧
        (parsed.scheme = scheme ∨ parsed.scheme = "locast".toList) ∧
        (∃ rest, segments parsed.path = invite.roomCode :: rest) ∧ byteLen invite.roomCode = 6 ∧
        readPairs parsed.queryPairs (none, none) =
          .ok (some invite.hostPubkey, invite.version) := by
  rw [parseInvite]
  by_cases hurl : url = []
  · simp [hurl]
  rw [if_neg hurl]
  cases hparse : parseUrl url with
  | error e => simp
  | ok parsed =>
    simp only [ne_eq, hurl, not_false_eq_true, true_and, Except.ok.injEq, exists_eq_left']
    by_cases hscheme : parsed.scheme = scheme ∨ parsed.scheme = "locast".toList
    · rw [if_neg (by tauto)]
      cases hseg : segments parsed.path with
      | nil => simp
      | cons code rest =>
        by_cases hsix : byteLen code = 6
        · cases hread : readPairs parsed.queryPairs (none, none) with
          | error e => simp [hsix]
          | ok found =>
            obtain ⟨key, version⟩ := found
            cases key with
            | none => simp [hsix]
            | some key =>
              obtain ⟨code', key', version'⟩ := invite
              simp only [hsix, not_true_eq_false, if_false]
              constructor
              · rintro ⟨⟩
                exact ⟨hscheme, ⟨rest, rfl⟩, hsix, rfl⟩
              · rintro ⟨-, ⟨_, ⟨⟩⟩, -, ⟨⟩⟩
                rfl
        · dsimp only
          rw [if_pos hsix]
          refine ⟨fun h => (by cases h), ?_⟩
          rintro ⟨-, ⟨_, hcons⟩, hlen, -⟩
          cases hcons
          exact absurd hlen hsix
    · rw [if_pos (by tauto)]
      exact ⟨fun h => (by cases h), fun h => absurd h.1 hscheme⟩

lemma foldl_getLast {β : Type} (f : List Char → β) (b : β) {l : List (List Char)} (hl : l ≠ []) :
    l.foldl (fun _ x => f x) b = f (l.getLast hl) := by
  induction l using List.reverseRecOn with
  | nil => exact absurd rfl hl
  | append_singleton l x _ =>
    rw [List.foldl_append, List.getLast_append_singleton, List.foldl_cons, List.foldl_nil]

/-- What the parser looks at is what it takes to be accepted. -/
lemma LookedAt.accepted {scheme url : List Char} {parsed : Url} (h : LookedAt scheme parsed)
    (hurl : url ≠ []) (hparse : parseUrl url = .ok parsed) :
    ∃ invite, parseInvite parseUrl scheme url = .ok invite := by
  obtain ⟨code, rest, hcode, hsix⟩ := h.code
  have hlast := foldl_getLast keyOf none h.someKey
  obtain ⟨key, hkey⟩ := Option.isSome_iff_exists.1 (h.keys _ (List.getLast_mem h.someKey))
  refine ⟨⟨code, key, (values ['v'] parsed.queryPairs).foldl (fun _ v => parseU32 v) none⟩,
    parseInvite_eq_ok.2 ⟨hurl, parsed, hparse, h.scheme, ⟨rest, hcode⟩, hsix, ?_⟩⟩
  exact readPairs_eq_ok.2 ⟨h.keys, by rw [hlast, hkey]⟩

lemma lookedAt_of_ok {scheme url : List Char} {invite : ParsedInvite}
    (h : parseInvite parseUrl scheme url = .ok invite) :
    ∃ parsed, parseUrl url = .ok parsed ∧ LookedAt scheme parsed := by
  obtain ⟨-, parsed, hparse, hscheme, ⟨rest, hcode⟩, hsix, hread⟩ := parseInvite_eq_ok.1 h
  obtain ⟨hkeys, hfound⟩ := readPairs_eq_ok.1 hread
  refine ⟨parsed, hparse, hscheme, ⟨_, rest, hcode, hsix⟩, fun hnone => ?_, hkeys⟩
  rw [hnone] at hfound
  cases hfound

/-! ### The canonical shape -/

/-- The `url` crate escapes what is not ASCII. -/
def AsciiPaths (parseUrl : List Char → Except String Url) : Prop :=
  ∀ url parsed, parseUrl url = .ok parsed → ∀ c ∈ parsed.path, c.toNat < 128

/-- A text of ASCII characters is as long in bytes as in characters. -/
lemma byteLen_of_ascii {t : List Char} (h : ∀ c ∈ t, c.toNat < 128) : byteLen t = t.length := by
  induction t with
  | nil => rfl
  | cons c t ih =>
    have hc : c.utf8Size = 1 := by
      have hlt := h c List.mem_cons_self
      have hle : c.val ≤ 0x7f := by
        rw [UInt32.le_iff_toNat_le]
        exact Nat.le_of_lt_succ hlt
      simp [Char.utf8Size, hle]
    rw [byteLen_cons, hc, ih fun d hd => h d (List.mem_cons_of_mem _ hd), List.length_cons,
      Nat.add_comm]

lemma urlChar_ascii {c : Char} (h : Base64Url.urlChar c = true) : c.toNat < 128 := by
  simp only [Base64Url.urlChar, Char.isAlphanum, isAlpha_eq, isUpper_eq, isLower_eq, Char.isDigit,
    Bool.or_eq_true, decide_eq_true_eq, beq_iff_eq, UInt32.le_iff_toNat_le, Bool.and_eq_true,
      ge_iff_le] at h
  have hval : c.toNat = c.val.toNat := rfl
  rcases h with (((⟨-, h⟩ | ⟨-, h⟩) | ⟨-, h⟩) | rfl) | rfl
  · exact hval ▸ h.trans_lt (by decide)
  · exact hval ▸ h.trans_lt (by decide)
  · exact hval ▸ h.trans_lt (by decide)
  · decide
  · decide

lemma sized_toList (key : PubKey) : sized 32 key.toList = some key := by
  rw [sized, dif_pos (by simp)]
  exact congrArg some (Vector.ext fun i hi => by simp)

lemma segments_cons {code : List Char} (hslash : '/' ∉ code) (hcode : code ≠ []) :
    segments ('/' :: code) = [code] := by
  have hsplit : ('/' :: code).splitOn '/' = [[], code] := by
    have hhead : ([] ++ '/' :: code).splitOn '/' = [] :: code.splitOn '/' :=
      List.splitOn_append_cons_self_of_not_mem List.not_mem_nil code
    rw [List.nil_append, List.splitOn_eq_singleton hslash] at hhead
    exact hhead
  rw [segments, hsplit, List.filter_cons_of_neg (by simp),
    List.filter_cons_of_pos (by simpa using hcode), List.filter_nil]

lemma Unchecked.returns {scheme : List Char} {parsed : Url} {invite : ParsedInvite}
    (h : Unchecked parsed) (hascii : ∀ c ∈ parsed.path, c.toNat < 128)
    (hscheme : parsed.scheme = scheme ∨ parsed.scheme = "locast".toList)
    (hseg : ∃ rest, segments parsed.path = invite.roomCode :: rest)
    (hsix : byteLen invite.roomCode = 6)
    (hread : readPairs parsed.queryPairs (none, none) =
      .ok (some invite.hostPubkey, invite.version)) :
    Returns scheme parsed invite := by
  obtain ⟨code, hslash, hpath⟩ := h.path
  obtain ⟨rest, hrest⟩ := hseg
  have hne : code ≠ [] := by
    rintro rfl
    have hnone : segments ['/'] = [] := by decide
    rw [hpath, hnone] at hrest
    cases hrest
  rw [hpath, segments_cons hslash hne] at hrest
  obtain ⟨rfl, -⟩ := List.cons.inj hrest
  obtain ⟨-, hfound⟩ := readPairs_eq_ok.1 hread
  obtain ⟨hkey, hversion⟩ := Prod.mk.inj hfound
  have hlen : byteLen invite.roomCode = invite.roomCode.length :=
    byteLen_of_ascii fun c hc => hascii c (hpath ▸ List.mem_cons_of_mem _ hc)
  obtain ⟨k, hk⟩ := List.length_eq_one_iff.1 h.oneKey
  refine ⟨hscheme, h.host, hpath, hslash, hlen ▸ hsix, ⟨k, hk, ?_⟩, ?_⟩
  · rw [hkey, hk]
    rfl
  · rcases h.version with hnone | ⟨v, hv, hone⟩
    · rw [hnone] at hversion
      exact .inl ⟨hnone, hversion⟩
    · rw [hv] at hversion
      exact .inr ⟨v, hv, hone, hversion.trans hone⟩

/-- **A string is parsed strictly** when it meets what is not looked at too, or fails what is. -/
lemma strict_iff (hascii : AsciiPaths parseUrl) {scheme url : List Char} :
    Strict parseUrl scheme url ↔
      ∀ parsed, url ≠ [] → parseUrl url = .ok parsed → LookedAt scheme parsed →
        Unchecked parsed := by
  constructor
  · intro h parsed hurl hparse hlooked
    obtain ⟨invite, hok⟩ := hlooked.accepted hurl hparse
    obtain ⟨parsed', hparse', hret⟩ := h invite hok
    obtain rfl : parsed = parsed' := Except.ok.inj (hparse.symm.trans hparse')
    obtain ⟨k, hk, -⟩ := hret.key
    refine ⟨hret.host, ⟨_, hret.oneSegment, hret.path⟩, by rw [hk]; rfl, ?_⟩
    rcases hret.version with ⟨hnone, -⟩ | ⟨v, hv, hone, -⟩
    · exact .inl hnone
    · exact .inr ⟨v, hv, hone⟩
  · intro h invite hok
    obtain ⟨hurl, parsed, hparse, hscheme, hseg, hsix, hread⟩ := parseInvite_eq_ok.1 hok
    obtain ⟨parsed', hparse', hlooked⟩ := lookedAt_of_ok hok
    obtain rfl : parsed = parsed' := Except.ok.inj (hparse.symm.trans hparse')
    exact ⟨parsed, hparse, (h parsed hurl hparse hlooked).returns
      (hascii url parsed hparse) hscheme hseg hsix hread⟩

/-! ### The links that are made -/

structure PlainScheme (scheme : List Char) : Prop where
  lower : ∀ c ∈ scheme, c.isLower
  nonempty : scheme ≠ []
  notSpecial : scheme ∉ ["http", "https", "ws", "wss", "ftp", "file"].map String.toList

/-- A link without user, port and fragment. -/
def linkText (scheme host segment : List Char) (pairs : List (List Char × List Char)) : List Char :=
  scheme ++ ("://".toList ++ (host ++ '/' :: (segment ++ '?' ::
    ['&'].intercalate (pairs.map fun p => p.1 ++ '=' :: p.2))))

/-- The `url` crate reads a link of which nothing needs an escape as it stands. -/
def PlainLinks (parseUrl : List Char → Except String Url) : Prop :=
  ∀ scheme host segment pairs, PlainScheme scheme → host ≠ [] → (∀ c ∈ host, c.isLower) →
    (∀ c ∈ segment, Base64Url.urlChar c) →
    (∀ p ∈ pairs, (∀ c ∈ p.1, Base64Url.urlChar c) ∧ ∀ c ∈ p.2, Base64Url.urlChar c) →
    parseUrl (linkText scheme host segment pairs) = .ok ⟨scheme, some host, '/' :: segment, pairs⟩

lemma buildInviteUrl_eq {scheme code : List Char} (hcode : code ≠ []) (key : PubKey) :
    buildInviteUrl scheme code key =
      .ok
        (linkText scheme "join".toList code [(['h'], buildInviteHParam key), (['v'], ['1'])]) := by
  rw [buildInviteUrl, if_neg hcode]
  simp [linkText, List.intercalate]

/-- **The link of a room gives its code and its key back.** -/
lemma parseInvite_buildInviteUrl (hplain : PlainLinks parseUrl) {scheme code : List Char}
    (hscheme : PlainScheme scheme) (hlen : code.length = 6)
    (hcode : ∀ c ∈ code, Base64Url.urlChar c)
    (key : PubKey) : ∃ url, buildInviteUrl scheme code key = .ok url ∧
      parseInvite parseUrl scheme url = .ok ⟨code, key, some 1⟩ := by
  have hne : code ≠ [] := List.ne_nil_of_length_eq_add_one hlen
  refine ⟨_, buildInviteUrl_eq hne key, ?_⟩
  have hparse := hplain scheme "join".toList code
    [(['h'], buildInviteHParam key), (['v'], ['1'])] hscheme
    (by decide) (List.all_eq_true.1 (by decide)) hcode ?_
  swap
  · simp only [List.forall_mem_cons, List.not_mem_nil, false_imp_iff, implies_true, and_true]
    exact ⟨⟨by decide, fun c hc => Base64Url.urlChar_of_mem_encode hc⟩, by decide, by decide⟩
  have hslash : '/' ∉ code := fun h => absurd (hcode _ h) (by decide)
  have hsix : byteLen code = 6 :=
    (byteLen_of_ascii fun c hc => urlChar_ascii (hcode c hc)).trans hlen
  have hback : keyOf (buildInviteHParam key) = some key := by
    rw [keyOf, buildInviteHParam, Base64Url.decode_encode, Option.bind_some, sized_toList]
  refine parseInvite_eq_ok.2 ⟨?_, _, hparse, .inl rfl, ⟨[], segments_cons hslash hne⟩, hsix, ?_⟩
  · simp [linkText, hscheme.nonempty]
  · refine readPairs_eq_ok.2 ⟨?_, ?_⟩
    · simp [values, hback]
    · simp [values, hback]
      decide

/-- **The invite parser.**  A string is parsed strictly exactly when it fails what the parser looks
at or meets what it does not; a link that is made gives its code and its key back. -/
theorem parsed_links (hascii : AsciiPaths parseUrl) (hplain : PlainLinks parseUrl) :
    (∀ scheme url, Strict parseUrl scheme url ↔
      ∀ parsed, url ≠ [] → parseUrl url = .ok parsed → LookedAt scheme parsed → Unchecked parsed) ∧
    ∀ scheme code key, PlainScheme scheme → code.length = 6 → (∀ c ∈ code, Base64Url.urlChar c) →
      ∃ url, buildInviteUrl scheme code key = .ok url ∧
        parseInvite parseUrl scheme url = .ok ⟨code, key, some 1⟩ :=
  ⟨fun _ _ => strict_iff hascii, fun _ _ key hscheme hlen hcode =>
    parseInvite_buildInviteUrl hplain hscheme hlen hcode key⟩

/-! ### A parser of plain links -/

def plainPair (t : List Char) : List Char × List Char := (splitOnceAt (· = '=') t).getD (t, [])

def plainPairs (query : List Char) : List (List Char × List Char) :=
  ((query.splitOn '&').filter (· ≠ [])).map plainPair

/-- What the `url` crate does with a link that has a host and no escapes. -/
def plainParse (url : List Char) : Except String Url :=
  match splitOnce "://".toList url with
  | none => .error "relative URL without a base"
  | some (scheme, rest) =>
    match splitOnceAt (· = '/') rest with
    | none => .error "no path"
    | some (host, rest) =>
      let (path, query) := (splitOnceAt (· = '?') rest).getD (rest, [])
      if path.all fun c => c.toNat < 128 then .ok ⟨scheme, some host, '/' :: path, plainPairs query⟩
      else .error "not ASCII"

lemma asciiPaths_plainParse : AsciiPaths plainParse := by
  intro url parsed h c hc
  rw [plainParse] at h
  split at h
  · cases h
  split at h
  · cases h
  dsimp only at h
  split at h
  · rename_i hall
    cases h
    rcases List.mem_cons.1 hc with rfl | hmem
    · decide
    · exact of_decide_eq_true (List.all_eq_true.1 hall c hmem)
  · cases h

lemma not_mem_of_urlChar {t : List Char} (h : ∀ c ∈ t, Base64Url.urlChar c) {d : Char}
    (hd : Base64Url.urlChar d = false) : d ∉ t := fun hmem => by simp [h d hmem] at hd

lemma urlChar_of_isLower {c : Char} (h : c.isLower = true) : Base64Url.urlChar c = true := by
  simp [Base64Url.urlChar, Char.isAlphanum, isAlpha_eq, h]

lemma plainPairs_intercalate {pairs : List (List Char × List Char)}
    (h : ∀ p ∈ pairs, (∀ c ∈ p.1, Base64Url.urlChar c) ∧ ∀ c ∈ p.2, Base64Url.urlChar c) :
    plainPairs (['&'].intercalate (pairs.map fun p => p.1 ++ '=' :: p.2)) = pairs := by
  cases hpairs : pairs with
  | nil => rfl
  | cons p rest =>
    rw [← hpairs]
    have hamp : ∀ t ∈ pairs.map fun p => p.1 ++ '=' :: p.2, '&' ∉ t := by
      intro t ht
      obtain ⟨q, hq, rfl⟩ := List.mem_map.1 ht
      have hl := not_mem_of_urlChar (h q hq).1 (d := '&') (by decide)
      have hr := not_mem_of_urlChar (h q hq).2 (d := '&') (by decide)
      simp [hl, hr]
    have hkeep : (pairs.map fun p => p.1 ++ '=' :: p.2).filter (· ≠ []) =
        pairs.map fun p => p.1 ++ '=' :: p.2 := by
      refine List.filter_eq_self.2 fun t ht => ?_
      obtain ⟨q, -, rfl⟩ := List.mem_map.1 ht
      simp
    have hpair : ∀ q ∈ pairs, plainPair (q.1 ++ '=' :: q.2) = q := by
      intro q hq
      have hno := not_mem_of_urlChar (h q hq).1 (d := '=') (by decide)
      rw [plainPair, splitOnceAt_append (fun c hc => by simp; rintro rfl; exact hno hc) (by simp)]
      rfl
    rw [plainPairs, List.splitOn_intercalate _ hamp (by simp [hpairs]), hkeep, List.map_map]
    exact (List.map_congr_left hpair).trans (List.map_id pairs)

lemma plainLinks_plainParse : PlainLinks plainParse := by
  intro scheme host segment pairs hscheme _ hhost hsegment hpairs
  have hcolon : ':' ∉ scheme :=
    not_mem_of_urlChar (fun c hc => urlChar_of_isLower (hscheme.lower c hc)) (by decide)
  have hslash : '/' ∉ host := not_mem_of_urlChar (fun c hc => urlChar_of_isLower (hhost c hc))
    (by decide)
  have hmark : '?' ∉ segment := not_mem_of_urlChar hsegment (by decide)
  have hfirst : splitOnce "://".toList (linkText scheme host segment pairs) = some (scheme, _) :=
    splitOnce_append hcolon _
  have hsecond : ∀ t, splitOnceAt (· = '/') (host ++ '/' :: t) = some (host, t) :=
    splitOnceAt_append (fun c hc => by simp; rintro rfl; exact hslash hc) (by simp)
  have hthird : ∀ t, splitOnceAt (· = '?') (segment ++ '?' :: t) = some (segment, t) :=
    splitOnceAt_append (fun c hc => by simp; rintro rfl; exact hmark hc) (by simp)
  have hall : (segment.all fun c => c.toNat < 128) = true :=
    List.all_eq_true.2 fun c hc => decide_eq_true (urlChar_ascii (hsegment c hc))
  rw [plainParse, hfirst]
  dsimp only
  rw [hsecond]
  dsimp only
  rw [hthird]
  dsimp only [Option.getD_some]
  rw [if_pos hall, plainPairs_intercalate hpairs]

/-! ### Links that are not canonical -/

/-- The text of a key of equal bytes. -/
def sameKeyText (b : UInt8) : List Char := Base64Url.encode (List.replicate 32 b)

/-- A link of another host with a longer path, two keys and a version that is not known. -/
def evilLink : List Char :=
  "locast://evil/AAAAAA/x?h=".toList ++ sameKeyText 1 ++ "&h=".toList ++ sameKeyText 2 ++
    "&v=2".toList

/-- **The parser is not strict**: it takes another host, further segments, a second key and any
version. -/
theorem not_strict : (AsciiPaths plainParse ∧ PlainLinks plainParse) ∧
    (parseInvite plainParse "locast".toList evilLink).toOption.map
      (fun i => (i.roomCode, i.hostPubkey.toList)) = some ("AAAAAA".toList, List.replicate 32 2) ∧
    ¬Strict plainParse "locast".toList evilLink := by
  refine ⟨⟨asciiPaths_plainParse, plainLinks_plainParse⟩, by decide, fun hstrict => ?_⟩
  cases hok : parseInvite plainParse "locast".toList evilLink with
  | error e =>
    have hsome : (parseInvite plainParse "locast".toList evilLink).toOption.isSome = true := by
      decide
    rw [hok] at hsome
    cases hsome
  | ok invite =>
    obtain ⟨parsed, hparse, hret⟩ := hstrict invite hok
    have hhost : (plainParse evilLink).toOption.map (·.host) = some (some "evil".toList) := by
      decide
    rw [hparse] at hhost
    have := hret.host.symm.trans (Option.some.inj hhost)
    exact absurd this (by decide)

/-- The link that the host makes for a room. -/
def roomLink : List Char := linkText "locast".toList "join".toList "AAAAAA".toList
  [(['h'], sameKeyText 1), (['v'], ['1'])]

lemma plainScheme_locast : PlainScheme "locast".toList :=
  ⟨List.all_eq_true.1 (by decide), by decide, by decide⟩

theorem parsed_links_roomLink : Strict plainParse "locast".toList roomLink ∧
    ∃ url, buildInviteUrl "locast".toList "AAAAAA".toList (Vector.replicate 32 1) = .ok url ∧
      parseInvite plainParse "locast".toList url =
        .ok ⟨"AAAAAA".toList, Vector.replicate 32 1, some 1⟩ := by
  have h := parsed_links asciiPaths_plainParse plainLinks_plainParse
  refine ⟨(h.1 _ _).2 fun parsed _ hparse _ => ?_,
    h.2 _ _ _ plainScheme_locast rfl (List.all_eq_true.1 (by decide))⟩
  have hpairs : ∀ p ∈ [(['h'], sameKeyText 1), (['v'], ['1'])],
      (∀ c ∈ p.1, Base64Url.urlChar c) ∧ ∀ c ∈ p.2, Base64Url.urlChar c := by
    simp only [List.forall_mem_cons, List.not_mem_nil, false_imp_iff, implies_true, and_true]
    exact ⟨⟨by decide, fun c hc => Base64Url.urlChar_of_mem_encode hc⟩, by decide, by decide⟩
  have hparsed : plainParse roomLink = .ok ⟨"locast".toList, some "join".toList,
      '/' :: "AAAAAA".toList, [(['h'], sameKeyText 1), (['v'], ['1'])]⟩ :=
    plainLinks_plainParse _ _ _ _ plainScheme_locast (by decide) (List.all_eq_true.1 (by decide))
      (List.all_eq_true.1 (by decide)) hpairs
  obtain rfl := Except.ok.inj (hparsed.symm.trans hparse)
  exact ⟨rfl, ⟨_, by decide, rfl⟩, rfl, .inr ⟨['1'], rfl, by decide⟩⟩

/-! ### The anchor of an invite -/

/-- The crates as the trust anchor takes them. -/
def linkCrates (parseUrl : List Char → Except String Url) : LinkCrates where
  parseUrl url := (parseUrl url.toList).map fun parsed =>
    { scheme := .ofList parsed.scheme
      path := .ofList parsed.path
      queryPairs := parsed.queryPairs.map fun p => (.ofList p.1, .ofList p.2) }
  fromBase64Url t := Base64Url.decode t.toList

lemma hostKey_linkCrates (pairs : List (List Char × List Char)) (found : Option PubKey × Option ℕ) :
    hostKey (linkCrates parseUrl) (pairs.map fun p => (.ofList p.1, .ofList p.2)) found.1 =
      (readPairs pairs found).map (·.1) := by
  induction pairs generalizing found with
  | nil => rfl
  | cons p rest ih =>
    obtain ⟨k, v⟩ := p
    have hiff : (String.ofList k = "h") ↔ k = ['h'] := by
      rw [← String.ofList_toList (s := "h"), String.ofList_inj]
      rfl
    rw [List.map_cons, hostKey, readPairs]
    by_cases hh : k = ['h']
    · rw [if_pos (hiff.2 hh), if_pos hh]
      have hdecode : (linkCrates parseUrl).fromBase64Url (.ofList v) = Base64Url.decode v := by
        simp [linkCrates]
      rw [hdecode]
      cases Base64Url.decode v with
      | none => rfl
      | some bytes =>
        cases hsized : sized 32 bytes with
        | none =>
          simp only [hsized]
          rfl
        | some key => simpa only [hsized] using ih (some key, found.2)
    · rw [if_neg (mt hiff.1 hh), if_neg hh]
      by_cases hv : k = ['v']
      · rw [if_pos hv]
        exact ih (found.1, parseU32 v)
      · rw [if_neg hv]
        exact ih found

/-- **The parser of the trust anchor** is this one without the version. -/
theorem parseInvite_linkCrates (scheme url : List Char) :
    Client.parseInvite (linkCrates parseUrl) (.ofList scheme) (.ofList url) =
      (parseInvite parseUrl scheme url).map fun i => ⟨.ofList i.roomCode, i.hostPubkey⟩ := by
  have hempty : String.ofList url = "" ↔ url = [] := by
    rw [← String.ofList_nil, String.ofList_inj]
  rw [Client.parseInvite, parseInvite]
  by_cases hurl : url = []
  · rw [if_pos (hempty.2 hurl), if_pos hurl]
    rfl
  rw [if_neg (mt hempty.1 hurl), if_neg hurl]
  have hparse : (linkCrates parseUrl).parseUrl (.ofList url) = (parseUrl url).map fun parsed =>
      { scheme := .ofList parsed.scheme
        path := .ofList parsed.path
        queryPairs := parsed.queryPairs.map fun p => (.ofList p.1, .ofList p.2) } := by
    simp [linkCrates]
  rw [hparse]
  cases parseUrl url with
  | error e => rfl
  | ok parsed =>
    have hlocast : String.ofList parsed.scheme = "locast" ↔ parsed.scheme = "locast".toList := by
      rw [← String.ofList_inj, String.ofList_toList]
    simp only [Except.map, ne_eq, String.ofList_inj, hlocast, String.toList_ofList]
    by_cases hscheme : ¬parsed.scheme = scheme ∧ ¬parsed.scheme = "locast".toList
    · rw [if_pos hscheme, if_pos hscheme]
    rw [if_neg hscheme, if_neg hscheme]
    change (match segments parsed.path with
      | [] => _
      | segment :: _ => _) = _
    cases segments parsed.path with
    | nil => rfl
    | cons code rest =>
      have hkey := @hostKey_linkCrates parseUrl parsed.queryPairs (none, none)
      dsimp only at hkey ⊢
      have hbytes : (String.ofList code).utf8ByteSize = byteLen code :=
        Base64.utf8ByteSize_ofList code
      rw [hbytes, hkey]
      by_cases hsix : byteLen code = 6
      · rw [if_neg (not_not_intro hsix), if_neg (not_not_intro hsix)]
        cases readPairs parsed.queryPairs (none, none) with
        | error e => rfl
        | ok found =>
          obtain ⟨key, version⟩ := found
          cases key <;> rfl
      · rw [if_pos hsix, if_pos hsix]

end Locast.Client.InviteLink
