import Locast.Library.OpenDownload
import Locast.Transfer.HostDispatch
import Locast.Transfer.WireCodec

/-!
# What the viewer asks for and what the host serves

The viewer names an entry by the id of its own row for the entry's digest; the host looks that id up
in the manifest that it had when the channel's sender got one.  The two plans list the same chunks
exactly when the lookup finds an entry with the same chunks.
-/

namespace Locast.Transfer

open Locast.Lib
open Library (OpenWorld Opened openDownload MediaTable Files pickPrimarySourcePeer)
open Protocol (MediaEntry MediaManifest)

section Agreement

variable {nfc : List Char → List Char} {fromSlice : Bytes → Except String Frame}
  {resolve : String → Except String String} {hostPeerId : String}

/-! ### The host -/

/-- The sender of the channel awaits its `Hello` and takes this one. -/
def Accepts (nfc : List Char → List Char) (fromSlice : Bytes → Except String Frame)
    (resolve : String → Except String String) (hostPeerId : String) (h : Host) (c : ℕ) (raw : Bytes)
    (attached : Attached) : Prop :=
  ∃ peer m, h.channels.get c = some ⟨peer, .ready m⟩ ∧
    runSender nfc fromSlice resolve hostPeerId m raw = .ok attached

lemma serveEntry_eq_ok {version : ℕ} {hello : HelloFrame} {entry : MediaEntry}
    {attached : Attached} :
    serveEntry resolve hostPeerId version hello entry = .ok attached ↔
      ∃ source path, Plannable entry hostPeerId source ∧ resolve entry.id = .ok path ∧
        attached = ⟨planOf hello.downloadId entry.id version entry hostPeerId source, hello, path,
          entry.filename⟩ := by
  unfold serveEntry
  constructor
  · intro h
    split at h
    · cases h
    split at h
    · cases h
    split at h
    · cases h
    rename_i path hpath
    split at h
    · cases h
    rename_i plan hplan
    obtain ⟨source, hsource, rfl⟩ := planDownload_eq_ok.1 hplan
    exact ⟨source, path, hsource, hpath, (Except.ok.inj h).symm⟩
  · rintro ⟨source, path, hsource, hpath, rfl⟩
    have hfound := hsource.found
    have hne : entry.sources ≠ [] := by
      rintro heq
      rw [heq] at hfound
      cases hfound
    rw [if_neg hne, hfound, if_neg (by simp), hpath]
    dsimp only
    rw [planDownload_eq_ok.2 ⟨source, hsource, rfl⟩]

/-- **What a sender accepts** is a `Hello` for an entry that the host can plan and find on disk. -/
lemma runSender_encoded {m : MediaManifest} {hello : HelloFrame} {raw : Bytes} {attached : Attached}
    (hread : Readable nfc fromSlice (.hello hello))
    (hraw : encode compactFields (.hello hello) = .ok raw) :
    runSender nfc fromSlice resolve hostPeerId m raw = .ok attached ↔
      ∃ entry, (m.media.find? fun e => e.id == hello.mediaId) = some entry ∧
        serveEntry resolve hostPeerId m.manifestVersion hello entry = .ok attached := by
  have hdecode := decode_encode_append hread hraw []
  rw [List.append_nil] at hdecode
  unfold runSender
  rw [hdecode]
  dsimp only
  cases m.media.find? fun e => e.id == hello.mediaId with
  | none => simp
  | some entry => simp

lemma valid_of_runSender {m : MediaManifest} {hello : HelloFrame} {raw : Bytes}
    {attached : Attached} (hraw : encode compactFields (.hello hello) = .ok raw)
    (hread : fromSlice (toVec (.hello hello)) = .ok (.hello hello))
    (hrun : runSender nfc fromSlice resolve hostPeerId m raw = .ok attached) :
    validate nfc (.hello hello) = .ok () := by
  unfold runSender at hrun
  cases hdecode : decode nfc fromSlice raw with
  | error e =>
    rw [hdecode] at hrun
    cases hrun
  | ok out => exact validate_of_decode_encode hraw hread hdecode

/-! ### The viewer -/

/-- The id that a viewer asks for an entry by: that of its row for the digest. -/
def mediaIdFor (t : MediaTable) (entry : MediaEntry) : String :=
  ((t.bySha entry.sha256).map Library.MediaRow.id).getD entry.id

/-- The `Hello` of a plan, with what the viewer has. -/
def DownloadPlan.hello (localPeerId : String) (had : List ℕ) (plan : DownloadPlan) : HelloFrame :=
  ⟨localPeerId, plan.downloadId, plan.mediaId, plan.manifestVersion, had⟩

lemma travels_hello {plan : DownloadPlan} {localPeerId : String} {had : List ℕ}
    (hplan : plan.WellFormed) (hlayout : plan.Layout)
    (hlocal : isCanonicalPeerId localPeerId = true) :
    Travels nfc (.hello (plan.hello localPeerId had)) ↔
      Carried nfc plan (.hello (plan.hello localPeerId had)) := by
  let ps : RunParams := ⟨fun _ => "", fun _ => "", fun _ => none, id, localPeerId, plan⟩
  have hf : ReceiverFrame ps (.hello (plan.hello localPeerId had)) := .hello had
  exact travels_receiverFrame (show ps.plan.WellFormed from hplan) hlayout hlocal hf trivial

/-- The manifest of a sender has, first under this id, an entry of the host with these chunks. -/
def Matches (resolve : String → Except String String) (hostPeerId : String) (m : MediaManifest)
    (mediaId : String) (chunkHashes : List String) (sizeBytes : ℕ) : Prop :=
  ∃ entry source, (m.media.find? fun e => e.id == mediaId) = some entry ∧
    Plannable entry hostPeerId source ∧ (∃ path, resolve entry.id = .ok path) ∧
      source.chunkHashes = chunkHashes ∧
        (chunkHashes ≠ [] → entry.sizeBytes % 2 ^ 50 = sizeBytes % 2 ^ 50)

/-- **Agreement.**  The `Hello` of a download that the viewer starts is accepted, and served with
the chunks of the viewer's plan, exactly when the codec carries it, the sender of the channel still
awaits its `Hello`, and the manifest it has been waiting with matches the entry under the id of the
viewer's row. -/
theorem viewer_host_agree {w : OpenWorld} {manifest : MediaManifest}
    {mediaId id localPeerId : String} {files : Files} {t t' : MediaTable} {plan : DownloadPlan}
    {receiver : Receiver}
    (hopen : openDownload nfc w manifest mediaId files t = (.ok (.started id plan receiver), t'))
    (hlocal : isCanonicalPeerId localPeerId = true) :
    ∃ entry source, (manifest.media.find? fun e => e.id == mediaId) = some entry ∧
      (entry.sources.find? fun s => s.peerId == pickPrimarySourcePeer entry) = some source ∧
      ∀ had : List ℕ, fromSlice (toVec (.hello (plan.hello localPeerId had))) =
        .ok (.hello (plan.hello localPeerId had)) → ∀ (h : Host) (c : ℕ),
          ((∃ raw attached, encode compactFields (.hello (plan.hello localPeerId had)) = .ok raw ∧
            Accepts nfc fromSlice resolve hostPeerId h c raw attached ∧
              attached.plan.chunks = plan.chunks) ↔
          Carried nfc plan (.hello (plan.hello localPeerId had)) ∧
            ∃ peer m, h.channels.get c = some ⟨peer, .ready m⟩ ∧
              Matches resolve hostPeerId m (mediaIdFor t entry) source.chunkHashes
                entry.sizeBytes) := by
  obtain ⟨entry, row, downloadId, hstart, -⟩ := Library.startedFor_of_openDownload hopen
  obtain ⟨source, hsource, rfl⟩ := planDownload_eq_ok.1 hstart.planned
  have hid : mediaIdFor t entry = row.id := by
    rcases hstart.origin with hrow | ⟨hnone, name, -, rfl⟩
    · rw [mediaIdFor, hrow]
      rfl
    · rw [mediaIdFor, hnone]
      rfl
  refine ⟨entry, source, hstart.listed, hsource.found, fun had hjson h c => ?_⟩
  rw [← travels_hello (wellFormed_of_planDownload hstart.planned)
    (layout_of_planDownload hstart.planned) hlocal, travels_iff, hid]
  constructor
  · rintro ⟨raw, attached, hraw, ⟨peer, m, hget, hrun⟩, hchunks⟩
    have hvalid := valid_of_runSender hraw hjson hrun
    obtain ⟨entry₀, hfind, hserve⟩ := (runSender_encoded ⟨hvalid, hjson⟩ hraw).1 hrun
    obtain ⟨source₀, path, hsource₀, hpath, rfl⟩ := serveEntry_eq_ok.1 hserve
    obtain ⟨hhashes, hsize⟩ :=
      (chunks_eq_iff hsource₀.toDescribes hsource.toDescribes).1 hchunks
    exact ⟨⟨(encode_eq_ok.1 hraw).1, hvalid⟩, peer, m, hget, entry₀, source₀, hfind, hsource₀,
      ⟨path, hpath⟩, hhashes, hhashes ▸ hsize⟩
  · rintro ⟨⟨hfits, hvalid⟩, peer, m, hget, entry₀, source₀, hfind, hsource₀,
      ⟨path, hpath⟩, hhashes, hsize⟩
    have hraw := encode_eq_ok.2 ⟨hfits, rfl⟩
    refine ⟨_, _, hraw, ⟨peer, m, hget, (runSender_encoded ⟨hvalid, hjson⟩ hraw).2 ⟨entry₀, hfind,
      serveEntry_eq_ok.2 ⟨source₀, path, hsource₀, hpath, rfl⟩⟩⟩, ?_⟩
    exact (chunks_eq_iff hsource₀.toDescribes hsource.toDescribes).2 ⟨hhashes, hhashes ▸ hsize⟩

end Agreement

namespace TwoIds

def hostId : String := "3a7bd3e2360a3d29eea436fcfb7e44c735d117c42d1c1835420b6b9942dd4f1b"
def viewerId : String := "9f86d081884c7d659a2feaa0c55ad015a3bf4f1b2b0b822cd15d6c15b0f00a08"
def digest : String := "60303ae22b998861bce3b28f33eec1be758a213c86c93c076dbe9f558c11c752"

/-- The entry of a film of one chunk. -/
def film : MediaEntry where
  id := "11111111-1111-4111-8111-111111111111"
  filename := "film.mkv"
  sha256 := digest
  blake3 := digest
  sizeBytes := 1000
  mime := "video/x-matroska"
  durationMs := 60000
  dimensions := none
  codecs := none
  sources := [⟨hostId, none, 0, chunkSizeBytes, 1, [digest]⟩]

/-- What the host has published. -/
def published : MediaManifest := ⟨1, "room", [film], [], 0, none⟩

/-- The viewer had the film once, under an id of its own, and has deleted the file. -/
def ownRow : Library.MediaRow where
  id := "22222222-2222-4222-8222-222222222222"
  sha256 := digest
  blake3 := digest
  sizeBytes := 1000
  filename := "film.mkv"
  relativePath := Library.relPath digest "film.mkv"
  status := .permanent

def viewerRows : MediaTable := MediaTable.empty.insertOrIgnore ownRow

/-- The quota has room, the table of downloads makes a row, and the host's channel is open. -/
def world : OpenWorld where
  used := 0
  cap := 1000000000
  downloadRow := fun _ _ => .ok "33333333-3333-4333-8333-333333333333"
  zeroByteRow := fun _ => .ok ()
  markComplete := fun _ => .ok ()
  connected := [hostId]

/-- The plan that is made under the id of a row. -/
def planned (rowId : String) : DownloadPlan :=
  planOf "33333333-3333-4333-8333-333333333333" rowId 1 film hostId
    ⟨hostId, none, 0, chunkSizeBytes, 1, [digest]⟩

/-- The host has its file. -/
def onDisk (id : String) : Except String String :=
  if id = film.id then .ok "/library/film.mkv"
  else .error ("media_id " ++ id ++ " not in local media_items")

/-- Reads back one frame. -/
def readOne (frame : Frame) (payload : Bytes) : Except String Frame :=
  if payload = toVec frame then .ok frame else .error "expected value"

/-- The dispatch of a host with one viewer, whose channel opened after the manifest was
published. -/
def host : Host :=
  ⟨some published, ((∅ : AMap ℕ ChannelSender).insert 0 ⟨viewerId, .waiting⟩).insert 0
    ⟨viewerId, .ready published⟩⟩

lemma host_reached (fromSlice : Bytes → Except String Frame) :
    (hostDispatch id fromSlice onDisk hostId).Reaches Machine.free Host.init host := by
  let opened : Host := ⟨some published, (∅ : AMap ℕ ChannelSender).insert 0 ⟨viewerId, .waiting⟩⟩
  have hfree : opened.taken viewerId = false := by decide
  have h₁ : hostDispatch id fromSlice onDisk hostId Host.init (.manifest (some published)) =
      some ⟨some published, ∅⟩ := rfl
  have h₂ : hostDispatch id fromSlice onDisk hostId ⟨some published, ∅⟩ (.opened 0 viewerId) =
      some opened := rfl
  have h₃ : hostDispatch id fromSlice onDisk hostId opened (.woken 0) = some host := by
    have hget : opened.channels.get 0 = some ⟨viewerId, .waiting⟩ := AList.get_insert_self _ _ _
    simp only [hostDispatch, Host.onSender, hget, hfree]
    rfl
  exact .head ⟨_, trivial, h₁⟩ (.head ⟨_, trivial, h₂⟩ (.single ⟨_, trivial, h₃⟩))

lemma host_ready : host.channels.get 0 = some ⟨viewerId, .ready published⟩ :=
  AList.get_insert_self _ _ _

lemma hostId_hex : is64LowercaseHex hostId = true := is64LowercaseHex_ofList (by decide) (by decide)

lemma viewerId_hex : is64LowercaseHex viewerId = true :=
  is64LowercaseHex_ofList (by decide) (by decide)

lemma digest_hex : is64LowercaseHex digest = true := is64LowercaseHex_ofList (by decide) (by decide)

lemma found_host : (film.sources.find? fun s => s.peerId == hostId) =
    some ⟨hostId, none, 0, chunkSizeBytes, 1, [digest]⟩ :=
  List.find?_cons_of_pos (beq_self_eq_true _)

lemma plannable : Plannable film hostId ⟨hostId, none, 0, chunkSizeBytes, 1, [digest]⟩ := by
  refine ⟨⟨rfl, rfl, rfl, fun hash hhash => ?_⟩, by decide, digest_hex, digest_hex, by decide,
    hostId_hex, found_host⟩
  rw [List.mem_singleton.1 hhash]
  exact digest_hex

lemma film_listed : (published.media.find? fun e => e.id == film.id) = some film :=
  List.find?_cons_of_pos (beq_self_eq_true _)

lemma pick_film : pickPrimarySourcePeer film = hostId := by
  rw [pickPrimarySourcePeer, film]
  rfl

/-- The film has one source, whose channel is open. -/
lemma handles_film : Library.sourceHandles world film = [.fresh hostId 0] := by
  have hcanonical : isCanonicalPeerId hostId = true := hostId_hex
  have hconnected : world.connected.contains hostId = true := by
    rw [world, List.contains_cons, beq_self_eq_true, Bool.true_or]
  rw [Library.sourceHandles, film, List.filter_cons_of_pos (by rw [hcanonical, hconnected]; rfl)]
  rfl

lemma download_checked : checkDownloadId "33333333-3333-4333-8333-333333333333" = .ok () := by
  decide

lemma checks_film : checkDownloadId film.id = .ok () := by decide

lemma checks_ownRow : checkDownloadId ownRow.id = .ok () := by decide

lemma binds_film : (planned film.id).Binds := ⟨by decide, by decide, Int.le_refl 1⟩

lemma binds_ownRow : (planned ownRow.id).Binds := ⟨by decide, by decide, Int.le_refl 1⟩

/-- The `Hello` of the viewer, under either id. -/
lemma hello_valid {rowId : String} (hbinds : (planned rowId).Binds) :
    validate id (.hello ((planned rowId).hello viewerId [])) = .ok () :=
  bind_eq_ok.2 ⟨download_checked, bind_eq_ok.2
    ⟨(checkBinding_eq_ok viewerId_hex).2 hbinds, if_neg List.not_mem_nil⟩⟩

lemma hello_small {rowId : String} (hid : checkDownloadId rowId = .ok ()) :
    (Frame.hello ((planned rowId).hello viewerId [])).payloadSize ≤ maxFrameBytes :=
  hello_fits (textSize_of_hex viewerId_hex).le (textSize_of_downloadId download_checked)
    (textSize_of_downloadId hid) LongFilm.version_size (Nat.zero_le _)

/-- The download starts under the id of the row. -/
lemma starts {t t' : MediaTable} {row : Library.MediaRow}
    (hstored : t.bySha digest = some row ∧ t' = t ∨
      t.bySha digest = none ∧ t' = t.insertOrIgnore (Library.rowOf film "film.mkv"))
    (hrow : t'.bySha digest = some row) : ∃ receiver,
      openDownload id world published film.id ∅ t =
        (.ok (.started row.id (planned row.id) receiver), t') := by
  have hplan : planDownload "33333333-3333-4333-8333-333333333333" row.id published.manifestVersion
      film (pickPrimarySourcePeer film) = .ok (planned row.id) := by
    rw [pick_film]
    exact planDownload_eq_ok.2 ⟨_, plannable, rfl⟩
  have hunbacked : ¬Library.Backed ∅ row := fun ⟨_, _, _, hget, _⟩ => by cases hget
  obtain ⟨receiver, hreceiver⟩ : ∃ receiver,
      Receiver.new (Library.sourceHandles world film) = .ok receiver := by
    rw [handles_film]
    exact ⟨_, rfl⟩
  refine ⟨receiver,
    (Library.openDownload_eq_missing film_listed digest_hex digest_hex (by decide)
      (by decide) Library.sanitize_film hstored hrow hunbacked).trans (congrArg (·, t')
      (Library.openMissing_eq_started (w := world) rfl ?_ hplan hreceiver))⟩
  rw [handles_film]
  exact List.cons_ne_nil _ _

/-- A viewer that never had the film asks for it by the id of its entry. -/
theorem viewer_host_agree_new : ∃ rowId receiver t',
    openDownload id world published film.id ∅ MediaTable.empty =
      (.ok (.started rowId (planned film.id) receiver), t') ∧ ∃ raw attached,
        encode compactFields (.hello ((planned film.id).hello viewerId [])) = .ok raw ∧
          Accepts id (readOne (.hello ((planned film.id).hello viewerId []))) onDisk
            hostId host 0 raw
            attached ∧ attached.plan.chunks = (planned film.id).chunks := by
  have hrow : (MediaTable.empty.insertOrIgnore (Library.rowOf film "film.mkv")).bySha digest =
      some (Library.rowOf film "film.mkv") :=
    MediaTable.bySha_first (Library.rowOf film "film.mkv")
  obtain ⟨receiver, hopen⟩ := starts (t := MediaTable.empty) (.inr ⟨rfl, rfl⟩) hrow
  refine ⟨film.id, receiver, _, hopen, ?_⟩
  obtain ⟨entry, source, hentry, hsource, hall⟩ :=
    @viewer_host_agree id (readOne (.hello ((planned film.id).hello viewerId []))) onDisk
      hostId world
      published film.id film.id viewerId ∅ MediaTable.empty _ (planned film.id) receiver hopen
      viewerId_hex
  obtain rfl := Option.some.inj (film_listed.symm.trans hentry)
  rw [pick_film] at hsource
  obtain rfl := Option.some.inj (found_host.symm.trans hsource)
  have hcarried : Carried id (planned film.id) (.hello ((planned film.id).hello viewerId [])) :=
    ⟨download_checked, binds_film, List.not_mem_nil, hello_small checks_film⟩
  exact (hall [] (if_pos rfl) host 0).2 ⟨hcarried, viewerId, published, host_ready, film, _,
    film_listed, plannable, ⟨_, if_pos rfl⟩, rfl, fun _ => rfl⟩

/-- A viewer that had the film under its own id asks for it by that id.  The host waits with the
very manifest of the viewer and does not know the id. -/
theorem not_viewer_host_agree : ∃ rowId receiver t',
    openDownload id world published film.id ∅ viewerRows =
      (.ok (.started rowId (planned ownRow.id) receiver), t') ∧
    Travels id (.hello ((planned ownRow.id).hello viewerId [])) ∧ host.current = some published ∧
    host.channels.get 0 = some ⟨viewerId, .ready published⟩ ∧
    ∀ fromSlice, (hostDispatch id fromSlice onDisk hostId).Reaches Machine.free Host.init host ∧
      (fromSlice (toVec (.hello ((planned ownRow.id).hello viewerId []))) =
        .ok (.hello ((planned ownRow.id).hello viewerId [])) → ∀ raw attached,
          encode compactFields (.hello ((planned ownRow.id).hello viewerId [])) = .ok raw →
            ¬Accepts id fromSlice onDisk hostId host 0 raw attached) := by
  have hrow : viewerRows.bySha digest = some ownRow :=
    MediaTable.bySha_first ownRow
  obtain ⟨receiver, hopen⟩ := starts (.inl ⟨hrow, rfl⟩) hrow
  have hvalid := hello_valid binds_ownRow
  refine ⟨ownRow.id, receiver, viewerRows, hopen,
    travels_iff.2 ⟨hello_small checks_ownRow, hvalid⟩, rfl, host_ready,
    fun fromSlice => ⟨host_reached fromSlice, ?_⟩⟩
  rintro hjson raw attached hraw ⟨peer, m, hget, hrun⟩
  rw [host_ready] at hget
  cases hget
  obtain ⟨entry, hfind, -⟩ := (runSender_encoded ⟨hvalid, hjson⟩ hraw).1 hrun
  have hnone : (published.media.find? fun e => e.id == ownRow.id) = none := by decide
  exact absurd (hnone.symm.trans hfind) (by simp)

end TwoIds

end Locast.Transfer
