import Locast.Client.ManifestTrust
import Locast.Lib.Machine
import Locast.Rooms.Validation
import Mathlib.Data.List.DropRight

/-!
# The trust anchor and the room that is held (`commands/room.rs`, `net/room.rs`)

The key of an invite is installed before the join is sent; the room held before stays held until the
join is answered, and after it if the join is refused.  So the anchor belongs to the held room in
every run in which no command moves it away from a room that is held.
-/

namespace Locast.Client

open Locast.Lib Locast.Protocol

/-! ### Invites (`room/invite.rs`) -/

/-- What the URL parser makes of a link. -/
structure ParsedUrl where
  scheme : String
  path : String
  queryPairs : List (String × String)

structure ParsedInvite where
  roomCode : String
  hostPubkey : PubKey

inductive InviteError where
  | notLocast
  | missingRoomCode
  | badRoomCodeLength (length : ℕ)
  | missingH
  | hDecode
  | hWrongLength (length : ℕ)
  | urlParse (e : String)
  deriving DecidableEq

/-- `Url::parse`, and the decoder of the key in a link. -/
structure LinkCrates where
  parseUrl : String → Except String ParsedUrl
  fromBase64Url : String → Option (List UInt8)

/-- The key of the query; a later `h` stands for an earlier one. -/
def hostKey (links : LinkCrates) :
    List (String × String) → Option PubKey → Except InviteError (Option PubKey)
  | [], found => .ok found
  | (k, v) :: rest, found =>
    if k = "h" then
      match links.fromBase64Url v with
      | none => .error .hDecode
      | some bytes =>
        match sized 32 bytes with
        | none => .error (.hWrongLength bytes.length)
        | some key => hostKey links rest (some key)
    else hostKey links rest found

def parseInvite (links : LinkCrates) (scheme url : String) : Except InviteError ParsedInvite :=
  if url = "" then .error (.urlParse "empty")
  else match links.parseUrl url with
    | .error e => .error (.urlParse e)
    | .ok parsed =>
      if parsed.scheme ≠ scheme ∧ parsed.scheme ≠ "locast" then .error .notLocast
      else match (parsed.path.toList.splitOn '/').filter (· ≠ []) with
        | [] => .error .missingRoomCode
        | segment :: _ =>
          let code := String.ofList segment
          if code.utf8ByteSize ≠ 6 then .error (.badRoomCodeLength code.utf8ByteSize)
          else match hostKey links parsed.queryPairs none with
            | .error e => .error e
            | .ok none => .error .missingH
            | .ok (some key) => .ok ⟨code, key⟩

/-- `str::trim`. -/
def trimmed (s : String) : String :=
  .ofList ((s.toList.dropWhile Rooms.isWhitespace).rdropWhile Rooms.isWhitespace)

def eqIgnoreAsciiCase (a b : String) : Bool :=
  a.toList.map Char.toLower == b.toList.map Char.toLower

inductive AnchorError where
  | invalidInviteLink (e : InviteError)
  | otherRoomCode
  deriving DecidableEq

/-- `invite_anchor_for`. -/
def inviteAnchorFor (links : LinkCrates) (code : String) (inviteUrl : Option String) :
    Except AnchorError (Option PubKey) :=
  match (inviteUrl.map trimmed).filter (· ≠ "") with
  | none => .ok none
  | some url =>
    match parseInvite links "locast" url with
    | .error e => .error (.invalidInviteLink e)
    | .ok parsed =>
      if eqIgnoreAsciiCase parsed.roomCode code then .ok (some parsed.hostPubkey)
      else .error .otherRoomCode

/-! ### The client -/

/-- The room held, and how the client came by it: as a viewer with the key of an invite, or as its
host. -/
structure HeldRoom where
  roomId : Uuid
  viewer : Bool
  joinedWith : Option PubKey
  deriving DecidableEq

/-- The command whose answer is awaited. -/
inductive RoomCommand where
  | create
  | join (invite : Option PubKey)
  deriving DecidableEq

/-- A manifest that passed the trust check, on its way to the cache. -/
structure CheckedManifest where
  room : Uuid
  key : PubKey
  deriving DecidableEq

/-- A manifest that was accepted, and the room that was held then. -/
structure Acceptance where
  room : Uuid
  key : PubKey
  held : Option HeldRoom
  deriving DecidableEq

/-- `accepted` and `invites` are kept for the statements only. -/
structure AnchorState where
  expectedHostPubkey : Option PubKey
  held : Option HeldRoom
  command : Option RoomCommand
  checked : List CheckedManifest
  accepted : List Acceptance
  invites : List PubKey
  deriving DecidableEq

def AnchorState.start : AnchorState where
  expectedHostPubkey := none
  held := none
  command := none
  checked := []
  accepted := []
  invites := []

/-- How the server answers a command: with the room, or not at all or with a refusal. -/
inductive RoomAnswer where
  | admitted (room : Uuid)
  | failed

/-- A command, its answer, the end of the room, or a step of accepting a manifest. -/
inductive AnchorInput where
  | create (leaveSent : Bool)
  | join (code : String) (inviteUrl : Option String)
  | answer (a : RoomAnswer)
  | leave (sent : Bool)
  | closed
  | check (m : MediaManifest)
  | cache (i : ℕ)

/-- `room_create` up to its request: the anchor is dropped, then the room held is left if the leave
can be sent. -/
def roomCreateStart (leaveSent : Bool) (s : AnchorState) : AnchorState :=
  { s with
    expectedHostPubkey := none
    held := if leaveSent then none else s.held
    command := some .create }

/-- `room_join` up to its request. -/
def roomJoinStart (links : LinkCrates) (code : String) (inviteUrl : Option String)
    (s : AnchorState) :
    AnchorState :=
  match inviteAnchorFor links code inviteUrl with
  | .error _ => s
  | .ok invite =>
    { s with
      expectedHostPubkey := invite
      command := some (.join invite)
      invites := invite.toList ++ s.invites }

/-- The rest of the command. -/
def roomAnswered (c : RoomCommand) : RoomAnswer → AnchorState → AnchorState
  | .failed, s => { s with command := none }
  | .admitted room, s =>
    match c with
    | .create => { s with held := some ⟨room, false, none⟩, command := none }
    | .join invite => { s with held := some ⟨room, true, invite⟩, command := none }

/-- `accept_manifest` up to its trust check. -/
def checkManifest (crates : ClientCrates) (m : MediaManifest) (s : AnchorState) : AnchorState :=
  match crates.examine m with
  | .error _ => s
  | .ok (room, key) =>
    match crates.vouch s.expectedHostPubkey m key with
    | .error _ => s
    | .ok _ => { s with checked := s.checked ++ [⟨room, key⟩] }

/-- The rest of `accept_manifest`. -/
def cacheManifest (c : CheckedManifest) (i : ℕ) (s : AnchorState) : AnchorState :=
  { s with
    checked := s.checked.eraseIdx i
    accepted := ⟨c.room, c.key, s.held⟩ :: s.accepted }

/-- One command at a time; manifests come in at any moment. -/
def anchorMachine (links : LinkCrates) (crates : ClientCrates) : Machine AnchorState AnchorInput
  | s, .create leaveSent => if s.command = none then some (roomCreateStart leaveSent s) else none
  | s, .join code inviteUrl =>
    if s.command = none then some (roomJoinStart links code inviteUrl s) else none
  | s, .answer a => s.command.map fun c => roomAnswered c a s
  | s, .leave sent =>
    if s.command = none then some (if sent then { s with held := none } else s) else none
  | s, .closed => some { s with held := none }
  | s, .check m => some (checkManifest crates m s)
  | s, .cache i => s.checked[i]?.map fun c => cacheManifest c i s

/-! ### What the anchor is for -/

/-- **The anchor belongs to the held room.** -/
structure AnchorSound (s : AnchorState) : Prop where
  /-- What is accepted for the room held as a viewer is signed with the key of its invite. -/
  vouched : ∀ a ∈ s.accepted, ∀ held, a.held = some held → held.viewer = true →
    held.roomId = a.room → held.joinedWith = some a.key
  /-- With no command under way, the anchor of the room still held is the key of its invite. -/
  kept : s.command = none → ∀ held, s.held = some held → held.viewer = true →
    s.expectedHostPubkey = held.joinedWith
  /-- Whatever is accepted is signed with the key of an invite that was followed. -/
  invited : ∀ a ∈ s.accepted, a.key ∈ s.invites

/-- The anchor is not moved away from a room that is held as a viewer, nor from a manifest between
its trust check and the cache. -/
def KeepsAnchor (links : LinkCrates) (s : AnchorState) : AnchorInput → Prop
  | .create leaveSent => leaveSent = true ∨ s.expectedHostPubkey = none ∨
      ∀ held, s.held = some held → held.viewer = false
  | .join code inviteUrl => ∀ invite, inviteAnchorFor links code inviteUrl = .ok invite →
      (invite = s.expectedHostPubkey ∨ ∀ held, s.held = some held → held.viewer = false) ∧
        ∀ c ∈ s.checked, invite = some c.key
  | _ => True

/-! ### The invariant -/

/-- What every run keeps whose commands keep the anchor. -/
structure AnchorInv (s : AnchorState) : Prop where
  idle : s.command = none → ∀ held, s.held = some held → held.viewer = true →
    s.expectedHostPubkey = held.joinedWith
  joining : ∀ invite, s.command = some (.join invite) → s.expectedHostPubkey = invite ∧
    (∀ held, s.held = some held → held.viewer = true → held.joinedWith = invite) ∧
      ∀ c ∈ s.checked, invite = some c.key
  creating : s.command = some .create → s.expectedHostPubkey = none ∧
    ∀ held, s.held = some held → held.viewer = true → held.joinedWith = none
  inFlight : ∀ c ∈ s.checked, ∀ held, s.held = some held → held.viewer = true →
    held.roomId = c.room → held.joinedWith = some c.key
  vouched : ∀ a ∈ s.accepted, ∀ held, a.held = some held → held.viewer = true →
    held.roomId = a.room → held.joinedWith = some a.key
  anchorInvited : ∀ key, s.expectedHostPubkey = some key → key ∈ s.invites
  checkedInvited : ∀ c ∈ s.checked, c.key ∈ s.invites
  acceptedInvited : ∀ a ∈ s.accepted, a.key ∈ s.invites

lemma AnchorInv.sound {s : AnchorState} (h : AnchorInv s) : AnchorSound s :=
  ⟨h.vouched, h.idle, h.acceptedInvited⟩

variable {links : LinkCrates} {crates : ClientCrates} {s s' : AnchorState}

lemma AnchorInv.start : AnchorInv .start where
  idle := by rintro _ _ ⟨⟩
  joining := by rintro _ ⟨⟩
  creating := by rintro ⟨⟩
  inFlight := by rintro _ ⟨⟩
  vouched := by rintro _ ⟨⟩
  anchorInvited := by rintro _ ⟨⟩
  checkedInvited := by rintro _ ⟨⟩
  acceptedInvited := by rintro _ ⟨⟩

/-- Losing the room keeps everything else. -/
lemma AnchorInv.drop (h : AnchorInv s) : AnchorInv { s with held := none } where
  idle := by rintro _ _ ⟨⟩
  joining invite hc := ⟨(h.joining invite hc).1, by rintro _ ⟨⟩, (h.joining invite hc).2.2⟩
  creating hc := ⟨(h.creating hc).1, by rintro _ ⟨⟩⟩
  inFlight := by rintro _ _ _ ⟨⟩
  vouched := h.vouched
  anchorInvited := h.anchorInvited
  checkedInvited := h.checkedInvited
  acceptedInvited := h.acceptedInvited

lemma AnchorInv.createStart (h : AnchorInv s) (hidle : s.command = none) {leaveSent : Bool}
    (hg : KeepsAnchor links s (.create leaveSent)) : AnchorInv (roomCreateStart leaveSent s) := by
  have hheld : ∀ held, (if leaveSent then none else s.held) = some held → s.held = some held := by
    cases leaveSent
    · exact fun _ => id
    · rintro _ ⟨⟩
  refine ⟨by rintro ⟨⟩, by rintro _ ⟨⟩, fun _ => ⟨rfl, fun held hh hviewer => ?_⟩,
    fun c hc held hh => h.inFlight c hc held (hheld held hh), h.vouched, by rintro _ ⟨⟩,
    h.checkedInvited, h.acceptedInvited⟩
  have hanchor := h.idle hidle held (hheld held hh) hviewer
  rcases hg with rfl | hnone | hhost
  · cases hh
  · exact hanchor ▸ hnone
  · rw [hhost held (hheld held hh)] at hviewer
    cases hviewer

lemma AnchorInv.joinStart (h : AnchorInv s) (hidle : s.command = none) {code : String}
    {inviteUrl : Option String} (hg : KeepsAnchor links s (.join code inviteUrl)) :
    AnchorInv (roomJoinStart links code inviteUrl s) := by
  unfold roomJoinStart
  cases hinvite : inviteAnchorFor links code inviteUrl with
  | error e => exact h
  | ok invite =>
    obtain ⟨hkeeps, hchecked⟩ := hg invite hinvite
    refine ⟨by rintro ⟨⟩, ?_, by rintro ⟨⟩, h.inFlight, h.vouched, ?_, ?_, ?_⟩
    · rintro _ ⟨⟩
      refine ⟨rfl, fun held hh hviewer => ?_, hchecked⟩
      rcases hkeeps with rfl | hhost
      · exact (h.idle hidle held hh hviewer).symm
      · rw [hhost held hh] at hviewer
        cases hviewer
    · rintro key rfl
      exact List.mem_append_left _ (by simp)
    · exact fun c hc => List.mem_append_right _ (h.checkedInvited c hc)
    · exact fun a ha => List.mem_append_right _ (h.acceptedInvited a ha)

lemma AnchorInv.answered (h : AnchorInv s) {c : RoomCommand} (hc : s.command = some c)
    (a : RoomAnswer) : AnchorInv (roomAnswered c a s) := by
  cases c with
  | create =>
    obtain ⟨hanchor, hjoined⟩ := h.creating hc
    cases a with
    | failed =>
      exact ⟨fun _ held hh hviewer => hanchor.trans (hjoined held hh hviewer).symm, by rintro _ ⟨⟩,
        by rintro ⟨⟩, h.inFlight, h.vouched, h.anchorInvited, h.checkedInvited, h.acceptedInvited⟩
    | admitted room =>
      exact ⟨by rintro _ _ ⟨⟩ ⟨⟩, by rintro _ ⟨⟩, by rintro ⟨⟩, by rintro _ _ _ ⟨⟩ ⟨⟩, h.vouched,
        h.anchorInvited, h.checkedInvited, h.acceptedInvited⟩
  | join invite =>
    obtain ⟨hanchor, hjoined, hchecked⟩ := h.joining invite hc
    cases a with
    | failed =>
      exact ⟨fun _ held hh hviewer => hanchor.trans (hjoined held hh hviewer).symm, by rintro _ ⟨⟩,
        by rintro ⟨⟩, h.inFlight, h.vouched, h.anchorInvited, h.checkedInvited, h.acceptedInvited⟩
    | admitted room =>
      refine ⟨?_, by rintro _ ⟨⟩, by rintro ⟨⟩, ?_, h.vouched, h.anchorInvited, h.checkedInvited,
        h.acceptedInvited⟩
      · rintro _ _ ⟨⟩ -
        exact hanchor
      · rintro c hc _ ⟨⟩ - -
        exact hchecked c hc

lemma AnchorInv.check (h : AnchorInv s) (m : MediaManifest) :
    AnchorInv (checkManifest crates m s) := by
  unfold checkManifest
  cases hexamine : crates.examine m with
  | error e => exact h
  | ok found =>
    obtain ⟨room, key⟩ := found
    dsimp only
    cases hvouch : crates.vouch s.expectedHostPubkey m key with
    | error e => exact h
    | ok hash =>
      have hanchor := vouch_eq_ok hvouch
      refine ⟨h.idle, fun invite hc => ?_, h.creating,
        fun c hc held hh hviewer hroom => ?_, h.vouched, h.anchorInvited, fun c hc => ?_,
        h.acceptedInvited⟩
      · obtain ⟨hinvite, hjoined, hchecked⟩ := h.joining invite hc
        refine ⟨hinvite, hjoined, fun c hc => ?_⟩
        rcases List.mem_append.1 hc with hc | hc
        · exact hchecked c hc
        · obtain rfl := List.mem_singleton.1 hc
          exact hinvite.symm.trans hanchor
      · rcases List.mem_append.1 hc with hc | hc
        · exact h.inFlight c hc held hh hviewer hroom
        · obtain rfl := List.mem_singleton.1 hc
          -- whatever is under way, the anchor is the held room's
          cases hcommand : s.command with
          | none => exact (h.idle hcommand held hh hviewer).symm.trans hanchor
          | some command =>
            cases command with
            | create => cases (h.creating hcommand).1.symm.trans hanchor
            | join invite =>
              obtain ⟨hinvite, hjoined, -⟩ := h.joining invite hcommand
              exact (hjoined held hh hviewer).trans (hinvite.symm.trans hanchor)
      · rcases List.mem_append.1 hc with hc | hc
        · exact h.checkedInvited c hc
        · obtain rfl := List.mem_singleton.1 hc
          exact h.anchorInvited key hanchor

lemma AnchorInv.cache (h : AnchorInv s) {c : CheckedManifest} {i : ℕ}
    (hc : s.checked[i]? = some c) :
    AnchorInv (cacheManifest c i s) := by
  have hmem := List.mem_of_getElem? hc
  have hsub : ∀ c' ∈ s.checked.eraseIdx i, c' ∈ s.checked := fun c' =>
    (List.eraseIdx_sublist _ _).mem
  refine ⟨h.idle, fun invite hcommand => ?_, h.creating, fun c' hc' => h.inFlight c' (hsub c' hc'),
    fun a ha => ?_, h.anchorInvited, fun c' hc' => h.checkedInvited c' (hsub c' hc'),
      fun a ha => ?_⟩
  · obtain ⟨hinvite, hjoined, hchecked⟩ := h.joining invite hcommand
    exact ⟨hinvite, hjoined, fun c' hc' => hchecked c' (hsub c' hc')⟩
  · rcases List.mem_cons.1 ha with rfl | ha
    · exact h.inFlight c hmem
    · exact h.vouched a ha
  · rcases List.mem_cons.1 ha with rfl | ha
    · exact h.checkedInvited c hmem
    · exact h.acceptedInvited a ha

/-- One step. -/
lemma AnchorInv.step {i : AnchorInput} (h : AnchorInv s) (hg : KeepsAnchor links s i)
    (hi : anchorMachine links crates s i = some s') : AnchorInv s' := by
  cases i with
  | create leaveSent =>
    obtain ⟨hidle, heq⟩ := Option.ite_none_right_eq_some.1 hi
    cases heq
    exact h.createStart hidle hg
  | join code inviteUrl =>
    obtain ⟨hidle, heq⟩ := Option.ite_none_right_eq_some.1 hi
    cases heq
    exact h.joinStart hidle hg
  | answer a =>
    obtain ⟨c, hc, rfl⟩ := Option.map_eq_some_iff.1 hi
    exact h.answered hc a
  | leave sent =>
    obtain ⟨hidle, heq⟩ := Option.ite_none_right_eq_some.1 hi
    cases heq
    cases sent
    · exact h
    · exact h.drop
  | closed =>
    cases hi
    exact h.drop
  | check m =>
    cases hi
    exact h.check m
  | cache i =>
    obtain ⟨c, hc, rfl⟩ := Option.map_eq_some_iff.1 hi
    exact h.cache hc

/-! ### The condition cannot be weaker -/

/-- A refusal leaves everything but the command. -/
lemma anchorMachine_failed {c : RoomCommand} (hc : s.command = some c) :
    anchorMachine links crates s (.answer .failed) = some { s with command := none } := by
  cases c <;> simp [anchorMachine, hc, roomAnswered]

/-- Once a command has moved the anchor away, a refusal or a manifest on its way shows it. -/
lemma exists_unsound (h : AnchorInv s) {i : AnchorInput} (hg : ¬KeepsAnchor links s i)
    (hi : anchorMachine links crates s i = some s') :
    ∃ s'', (anchorMachine links crates).Reaches Machine.free s' s'' ∧ ¬AnchorSound s'' := by
  have refused {s' : AnchorState} {c : RoomCommand} (hc : s'.command = some c)
      (hmoved : ∃ held, s'.held = some held ∧ held.viewer = true ∧
        s'.expectedHostPubkey ≠ held.joinedWith) :
      ∃ s'', (anchorMachine links crates).Reaches Machine.free s' s'' ∧ ¬AnchorSound s'' := by
    obtain ⟨held, hh, hviewer, hne⟩ := hmoved
    exact ⟨_, .single ⟨.answer .failed, trivial, anchorMachine_failed hc⟩,
      fun hsound => hne (hsound.kept rfl held hh hviewer)⟩
  cases i with
  | create leaveSent =>
    simp only [KeepsAnchor, not_or, not_forall] at hg
    obtain ⟨hsent, hanchor, held, hh, hhost⟩ := hg
    obtain rfl : leaveSent = false := by simpa using hsent
    obtain ⟨hidle, heq⟩ := Option.ite_none_right_eq_some.1 hi
    cases heq
    have hviewer : held.viewer = true := by simpa using hhost
    exact refused rfl ⟨held, hh, hviewer, fun hnone =>
      hanchor ((h.idle hidle held hh hviewer).trans hnone.symm)⟩
  | join code inviteUrl =>
    simp only [KeepsAnchor, not_forall] at hg
    obtain ⟨invite, hinvite, hg⟩ := hg
    obtain ⟨hidle, heq⟩ := Option.ite_none_right_eq_some.1 hi
    simp only [roomJoinStart, hinvite] at heq
    cases heq
    by_cases hkeeps : invite = s.expectedHostPubkey ∨ ∀ held, s.held = some held →
      held.viewer = false
    · obtain ⟨c, hc, hne⟩ : ∃ c ∈ s.checked, invite ≠ some c.key := by
        by_contra hall
        exact hg ⟨hkeeps, fun c hc => by_contra fun hne => hall ⟨c, hc, hne⟩⟩
      obtain ⟨j, hj⟩ := List.mem_iff_getElem?.1 hc
      -- the server admits to the room of the manifest that is on its way
      refine ⟨_, .tail (.single ⟨.answer (.admitted c.room), trivial, rfl⟩)
        ⟨.cache j, trivial, Option.map_eq_some_iff.2 ⟨c, hj, rfl⟩⟩, fun hsound => hne ?_⟩
      exact hsound.vouched _ List.mem_cons_self _ rfl rfl rfl
    · simp only [not_or, not_forall] at hkeeps
      obtain ⟨hne, held, hh, hhost⟩ := hkeeps
      have hviewer : held.viewer = true := by simpa using hhost
      exact refused rfl ⟨held, hh, hviewer, fun heq =>
        hne (heq.trans (h.idle hidle held hh hviewer).symm)⟩
  | _ => exact absurd trivial hg

/-- **The trust anchor belongs to the held room** in every run whose commands keep it; and from any
state of such a run, a command that does not keep it can be answered so that it no longer does. -/
theorem trust_anchor_sound (links : LinkCrates) (crates : ClientCrates)
    (r : (anchorMachine links crates).Reaches (KeepsAnchor links) .start s) :
    AnchorSound s ∧ ∀ i s', anchorMachine links crates s i = some s' → ¬KeepsAnchor links s i →
      ∃ s'', (anchorMachine links crates).Reaches Machine.free s' s'' ∧ ¬AnchorSound s'' := by
  have hinv : AnchorInv s := r.invariant .start fun s i s' h hg hi => h.step hg hi
  exact ⟨hinv.sound, fun i s' hi hg => exists_unsound hinv hg hi⟩

/-! ### A refused join -/

namespace AnchorRace

/-- Two hosts' keys. -/
def own : PubKey := Vector.replicate 32 1

def other : PubKey := Vector.replicate 32 2

def roomId : String := "00000000-0000-0000-0000-000000000001"

/-- A client that finds good whatever these two have signed. -/
def viewer : ClientCrates where
  enc := .reference
  verifyStrict k _ _ := if k = own ∨ k = other then .ok () else .error .invalidSignature
  parseUuid s := if s = roomId then .ok 1 else .error "invalid"
  blake3Hex _ := ""

/-- Two invites, as the parsers read them. -/
def parsers : LinkCrates where
  parseUrl url :=
    if url = "locast://join/AAAAAA?h=own" then .ok ⟨"locast", "/AAAAAA", [("h", "own")]⟩
    else if url = "locast://join/BBBBBB?h=other" then .ok ⟨"locast", "/BBBBBB", [("h", "other")]⟩
    else .error "relative URL without a base"
  fromBase64Url h :=
    if h = "own" then some own.toList else if h = "other" then some other.toList else none

/-- A manifest of the first room, signed with a key. -/
def manifest (byte : UInt8) : MediaManifest where
  manifestVersion := 1
  roomId := roomId
  media := []
  subtitles := []
  createdAt := 0
  hostSignature := some ⟨Base64.encode (List.replicate 32 byte), "ed25519",
    Base64.encode (List.replicate 64 1)⟩

/-- The first room is joined with its invite. -/
def joined : List AnchorInput :=
  [.join "AAAAAA" (some "locast://join/AAAAAA?h=own"), .answer (.admitted 1)]

/-- Then a join of the second is refused, and a manifest of the first comes, signed with the
second's key. -/
def refused : List AnchorInput :=
  joined ++ [.join "BBBBBB" (some "locast://join/BBBBBB?h=other"), .answer .failed,
    .check (manifest 2), .cache 0]

lemma inviteAnchorFor_own :
    inviteAnchorFor parsers "AAAAAA" (some "locast://join/AAAAAA?h=own") = .ok (some own) := by
  decide

lemma inviteAnchorFor_other :
    inviteAnchorFor parsers "BBBBBB" (some "locast://join/BBBBBB?h=other") = .ok (some other) := by
  decide

lemma joins {s : AnchorState} {code url : String} {key : PubKey} (hidle : s.command = none)
    (hinvite : inviteAnchorFor parsers code (some url) = .ok (some key)) :
    anchorMachine parsers viewer s (.join code (some url)) =
      some { s with
        expectedHostPubkey := some key
        command := some (.join (some key))
        invites := key :: s.invites } := by
  simp only [anchorMachine, if_pos hidle, roomJoinStart, hinvite, Option.toList_some,
    List.cons_append, List.nil_append]

/-- A manifest of the first room passes under the anchor it is signed with. -/
lemma checks {s : AnchorState} {byte : UInt8}
    (hknown : Vector.replicate 32 byte = own ∨ Vector.replicate 32 byte = other)
    (hanchor : s.expectedHostPubkey = some (Vector.replicate 32 byte)) :
    anchorMachine parsers viewer s (.check (manifest byte)) =
      some { s with checked := s.checked ++ [⟨1, Vector.replicate 32 byte⟩] } := by
  have hkey : (Vector.replicate 32 byte).toList.all (· == 0) = false := by
    rcases hknown with h | h <;> rw [h] <;> rfl
  have hexamine : viewer.examine (manifest byte) = .ok (1, Vector.replicate 32 byte) := by
    have hroom : viewer.parseUuid (manifest byte).roomId = .ok 1 := by simp [viewer, manifest]
    refine examine_eq_ok (Vector.replicate 64 1) rfl rfl ?_ hroom
    rw [ClientCrates.verify, hkey]
    exact if_pos hknown
  have hvouch : viewer.vouch s.expectedHostPubkey (manifest byte) (Vector.replicate 32 byte) =
      .ok "" := by
    rw [hanchor, ClientCrates.vouch, if_neg (not_not.2 rfl)]
    rfl
  simp only [anchorMachine, checkManifest, hexamine, hvouch]

lemma exists_refused : ∃ s, (anchorMachine parsers viewer).Reaches Machine.free .start s ∧
    s.held = some ⟨1, true, some own⟩ ∧ ⟨1, other, some ⟨1, true, some own⟩⟩ ∈ s.accepted := by
  have hplay : (anchorMachine parsers viewer).play Machine.free .start refused =
      some ⟨some other, some ⟨1, true, some own⟩, none, [],
        [⟨1, other, some ⟨1, true, some own⟩⟩], [other, own]⟩ := by
    simp only [refused, joined, List.cons_append, List.nil_append]
    rw [Machine.play_cons trivial (joins rfl inviteAnchorFor_own), Machine.play_cons trivial rfl,
      Machine.play_cons trivial (joins rfl inviteAnchorFor_other), Machine.play_cons trivial rfl,
      Machine.play_cons trivial (checks (.inr rfl) rfl), Machine.play_cons trivial rfl]
    rfl
  exact ⟨_, Machine.reaches_of_play hplay, rfl, List.mem_cons_self⟩

/-- **Another room's key vouches** for the room that is still held. -/
theorem not_trust_anchor_sound :
    ∃ s, (anchorMachine parsers viewer).Reaches Machine.free .start s ∧ ¬AnchorSound s := by
  obtain ⟨s, r, -, hmem⟩ := exists_refused
  refine ⟨s, r, fun hsound => ?_⟩
  have hkey := hsound.vouched _ hmem _ rfl rfl rfl
  revert hkey
  decide

/-- The first room's own manifest is accepted. -/
theorem trust_anchor_sound_joined : ∃ s, AnchorSound s ∧
    s.accepted = [⟨1, own, some ⟨1, true, some own⟩⟩] := by
  let s₁ : AnchorState := ⟨some own, none, some (.join (some own)), [], [], [own]⟩
  let s₂ : AnchorState := ⟨some own, some ⟨1, true, some own⟩, none, [], [], [own]⟩
  let s₃ : AnchorState := { s₂ with checked := [⟨1, own⟩] }
  have hjoin : anchorMachine parsers viewer .start
      (.join "AAAAAA" (some "locast://join/AAAAAA?h=own")) = some s₁ :=
    joins rfl inviteAnchorFor_own
  have hcheck : anchorMachine parsers viewer s₂ (.check (manifest 1)) = some s₃ :=
    checks (.inl rfl) rfl
  have r₁ : (anchorMachine parsers viewer).Reaches (KeepsAnchor parsers) .start s₁ :=
    .single ⟨.join "AAAAAA" (some "locast://join/AAAAAA?h=own"),
      fun _ _ => ⟨.inr (by rintro _ ⟨⟩), by rintro _ ⟨⟩⟩, hjoin⟩
  have r₂ : (anchorMachine parsers viewer).Reaches (KeepsAnchor parsers) .start s₂ :=
    r₁.tail ⟨.answer (.admitted 1), trivial, rfl⟩
  have r₃ : (anchorMachine parsers viewer).Reaches (KeepsAnchor parsers) .start s₃ :=
    r₂.tail ⟨.check (manifest 1), trivial, hcheck⟩
  exact ⟨_, (trust_anchor_sound parsers viewer (r₃.tail ⟨.cache 0, trivial, rfl⟩)).1, rfl⟩

end AnchorRace

end Locast.Client
