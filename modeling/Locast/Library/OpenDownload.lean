import Locast.Library.Dedup
import Locast.Transfer.MultiSource
import Mathlib.Data.List.MinMax

/-!
# Opening a download (`open_download_inner`)

The entry of the verified manifest gets its row, the library is asked whether the file is already
there, and only if it is not a transfer is planned.  What lies in other tables and at other peers is
given.
-/

namespace Locast.Library

open Locast.Lib
open Protocol (MediaEntry MediaManifest)
open Transfer
  (Bytes DownloadPlan Receiver SourceHandle MultiSourceError planDownload is64LowercaseHex
    isCanonicalPeerId)

/-- What the command finds outside of the library: the quota, the table of downloads, and the peers
whose channel is open. -/
structure OpenWorld where
  used : ℤ
  cap : ℤ
  downloadRow : (mediaId : String) → (reuseComplete : Bool) → Except String String
  zeroByteRow : (mediaId : String) → Except String Unit
  markComplete : (downloadId : String) → Except String Unit
  connected : List String

inductive OpenError where
  | other (message : String)
  | quotaExceeded (used cap needed : ℤ)
  deriving DecidableEq

/-- How the command ends. -/
inductive Opened where
  | complete (mediaId : String)
  | local (mediaId downloadId onDiskPath : String)
  | waiting (mediaId downloadId : String)
  | started (mediaId : String) (plan : DownloadPlan) (receiver : Receiver)

/-- `pick_primary_source_peer`. -/
def pickPrimarySourcePeer (entry : MediaEntry) : String :=
  let _ : Preorder ℤ := Int.instLinearOrder.toPartialOrder.toPreorder
  ((entry.sources.argmin Protocol.Source.priority).map Protocol.Source.peerId).getD ""

/-- The first digest of the entry that is not one. -/
def malformedDigest (entry : MediaEntry) : Option String :=
  if !is64LowercaseHex entry.sha256 then some "sha256"
  else if !is64LowercaseHex entry.blake3 then some "blake3"
  else none

/-- The sources whose channel is open. -/
def sourceHandles (w : OpenWorld) (entry : MediaEntry) : List SourceHandle :=
  (entry.sources.filter fun s => isCanonicalPeerId s.peerId && w.connected.contains s.peerId).map
    fun s => .fresh s.peerId s.priority

/-- The arm for content that is not local. -/
def openMissing (w : OpenWorld) (manifestVersion : ℕ) (entry : MediaEntry) (mediaId : String) :
    Except OpenError Opened :=
  match w.downloadRow mediaId false with
  | .error e => .error (.other e)
  | .ok downloadId =>
    if sourceHandles w entry = [] then .ok (.waiting mediaId downloadId)
    else
      match planDownload downloadId mediaId manifestVersion entry (pickPrimarySourcePeer entry) with
      | .error e => .error (.other ("plan_download: " ++ e.display))
      | .ok plan =>
        match Receiver.new (sourceHandles w entry) with
        | .error e => .error (.other ("MultiSourceReceiver::new: " ++ MultiSourceError.display e))
        | .ok receiver => .ok (.started mediaId plan receiver)

/-- The arms for content that is local. -/
def openLocal (w : OpenWorld) (mediaId onDiskPath : String) : Except OpenError Opened :=
  match w.downloadRow mediaId true with
  | .error e => .error (.other e)
  | .ok downloadId =>
    match w.markComplete downloadId with
    | .error e => .error (.other ("mark_complete: " ++ e))
    | .ok () => .ok (.local mediaId downloadId onDiskPath)

/-- What follows the look into the library. -/
def openAfterDedup (w : OpenWorld) (manifestVersion : ℕ) (entry : MediaEntry) (mediaId : String)
    (outcome : DedupOutcome) : Except OpenError Opened :=
  if entry.sizeBytes = 0 then
    match w.zeroByteRow mediaId with
    | .error e => .error (.other e)
    | .ok () => .ok (.complete mediaId)
  else
    match outcome with
    | .alreadyLocal path _ _ => openLocal w mediaId path
    | .promotedFromTemporary path _ => openLocal w mediaId path
    | .missing => openMissing w manifestVersion entry mediaId

/-- `open_download_inner`. -/
def openDownload (nfc : List Char → List Char) (w : OpenWorld) (manifest : MediaManifest)
    (mediaId : String) (files : Files) (t : MediaTable) : Except OpenError Opened × MediaTable :=
  match manifest.media.find? fun m => m.id == mediaId with
  | none => (.error (.other ("media_id " ++ mediaId ++ " not in verified manifest")), t)
  | some entry =>
    match malformedDigest entry with
    | some field => (.error (.other ("manifest entry " ++ mediaId ++ " has a malformed " ++ field ++
        " digest")), t)
    | none =>
      -- an entry that has a row is counted already
      if 0 < entry.sizeBytes ∧ (t.bySha entry.sha256).isNone ∧ w.cap < w.used + entry.sizeBytes then
        (.error (.quotaExceeded w.used w.cap entry.sizeBytes), t)
      else
        match upsertMediaItemFromManifest nfc entry t with
        | (.error e, t) => (.error (.other e), t)
        | (.ok rowId, t) =>
          match dedupOnDownload nfc files entry.sha256 entry.filename t with
          | (.error e, t) => (.error (.other ("dedup: " ++ e.display)), t)
          | (.ok outcome, t) => (openAfterDedup w manifest.manifestVersion entry rowId outcome, t)

/-! ### When a transfer is started -/

lemma openMissing_started {w : OpenWorld} {version : ℕ} {entry : MediaEntry} {mediaId id : String}
    {plan : DownloadPlan} {receiver : Receiver}
    (h : openMissing w version entry mediaId = .ok (.started id plan receiver)) :
    id = mediaId ∧ ∃ downloadId, w.downloadRow mediaId false = .ok downloadId ∧
      planDownload downloadId mediaId version entry (pickPrimarySourcePeer entry) = .ok plan ∧
        Receiver.new (sourceHandles w entry) = .ok receiver := by
  unfold openMissing at h
  split at h
  · cases h
  rename_i downloadId hrow
  split at h
  · cases h
  split at h
  · cases h
  rename_i plan' hplan
  split at h
  · cases h
  rename_i receiver' hreceiver
  cases h
  exact ⟨rfl, downloadId, hrow, hplan, hreceiver⟩

lemma openLocal_ne_started {w : OpenWorld} {mediaId path id : String} {plan : DownloadPlan}
    {receiver : Receiver} : openLocal w mediaId path ≠ .ok (.started id plan receiver) := by
  unfold openLocal
  split
  · exact fun h => by cases h
  split
  · exact fun h => by cases h
  · exact fun h => by cases h

/-- **What is known when a transfer starts**: the row of the digest, which is not backed by a file,
and the plan under its id. -/
structure StartedFor (nfc : List Char → List Char) (w : OpenWorld) (manifest : MediaManifest)
    (mediaId : String) (files : Files) (t t' : MediaTable) (entry : MediaEntry) (row : MediaRow)
    (downloadId : String) (plan : DownloadPlan) (receiver : Receiver) : Prop where
  listed : (manifest.media.find? fun m => m.id == mediaId) = some entry
  found : t'.bySha entry.sha256 = some row
  origin : t.bySha entry.sha256 = some row ∨ t.bySha entry.sha256 = none ∧
    ∃ sanitized, sanitize nfc entry.filename = .ok sanitized ∧ row = rowOf entry sanitized
  unbacked : ¬Backed files row
  nonempty : entry.sizeBytes ≠ 0
  active : w.downloadRow row.id false = .ok downloadId
  planned : planDownload downloadId row.id manifest.manifestVersion entry
    (pickPrimarySourcePeer entry) = .ok plan
  sources : Receiver.new (sourceHandles w entry) = .ok receiver

theorem startedFor_of_openDownload {nfc : List Char → List Char} {w : OpenWorld}
    {manifest : MediaManifest} {mediaId id : String} {files : Files} {t t' : MediaTable}
    {plan : DownloadPlan} {receiver : Receiver}
    (h : openDownload nfc w manifest mediaId files t = (.ok (.started id plan receiver), t')) :
    ∃ entry row downloadId,
      StartedFor nfc w manifest mediaId files t t' entry row downloadId plan receiver ∧
        id = row.id := by
  unfold openDownload at h
  cases hentry : manifest.media.find? fun m => m.id == mediaId with
  | none =>
    simp only [hentry] at h
    cases (Prod.mk.inj h).1
  | some entry =>
    simp only [hentry] at h
    split at h
    · cases (Prod.mk.inj h).1
    split at h
    · cases (Prod.mk.inj h).1
    rcases hupsert : upsertMediaItemFromManifest nfc entry t with ⟨_ | rowId, t₁⟩
    · simp only [hupsert] at h
      cases (Prod.mk.inj h).1
    simp only [hupsert] at h
    obtain ⟨row, hrow, rfl, horigin⟩ := upsert_eq_ok hupsert
    rcases hdedup : dedupOnDownload nfc files entry.sha256 entry.filename t₁ with ⟨_ | outcome, t₂⟩
    · simp only [hdedup] at h
      cases (Prod.mk.inj h).1
    simp only [hdedup] at h
    obtain ⟨hafter, rfl⟩ := Prod.mk.inj h
    obtain ⟨hout, hkept⟩ := dedupOnDownload_eq_ok hrow hdedup
    unfold openAfterDedup at hafter
    split at hafter
    · split at hafter <;> cases hafter
    rename_i hsize
    split at hafter
    · exact absurd hafter openLocal_ne_started
    · exact absurd hafter openLocal_ne_started
    have hunbacked : ¬Backed files row := by
      rw [← isLocal_dedupRow (t := t₁), hout]
      exact Bool.false_ne_true
    obtain ⟨rfl, downloadId, hactive, hplan, hreceiver⟩ := openMissing_started hafter
    exact ⟨entry, row, downloadId, ⟨hentry, hkept rfl ▸ hrow, horigin.imp And.left id, hunbacked,
      hsize, hactive, hplan, hreceiver⟩, rfl⟩

section Missing

variable {nfc : List Char → List Char} {w : OpenWorld} {manifest : MediaManifest}
  {mediaId downloadId sanitized : String} {files : Files} {t t' : MediaTable} {entry : MediaEntry}
  {row : MediaRow} {plan : DownloadPlan} {receiver : Receiver}

/-- **A file that is not there**: the row of its digest, which may be made first, names no file. -/
theorem openDownload_eq_missing
    (hlisted : (manifest.media.find? fun m => m.id == mediaId) = some entry)
    (hsha : is64LowercaseHex entry.sha256 = true) (hblake : is64LowercaseHex entry.blake3 = true)
    (hsize : entry.sizeBytes ≠ 0) (hquota : ¬w.cap < w.used + entry.sizeBytes)
    (hname : sanitize nfc entry.filename = .ok sanitized)
    (hstored : t.bySha entry.sha256 = some row ∧ t' = t ∨
      t.bySha entry.sha256 = none ∧ t' = t.insertOrIgnore (rowOf entry sanitized))
    (hrow : t'.bySha entry.sha256 = some row) (hunbacked : ¬Backed files row) :
    openDownload nfc w manifest mediaId files t =
      (openMissing w manifest.manifestVersion entry row.id, t') := by
  have hupsert : upsertMediaItemFromManifest nfc entry t = (.ok row.id, t') := by
    unfold upsertMediaItemFromManifest
    rcases hstored with ⟨hold, rfl⟩ | ⟨hnone, rfl⟩
    · rw [hold]
    · rw [hnone, hname]
      dsimp only
      rw [hrow]
  have hmissing : (dedupRow files row t').1 = .missing := by
    cases hout : (dedupRow files row t').1 with
    | missing => rfl
    | _ => exact absurd (isLocal_dedupRow.1 (by rw [hout]; rfl)) hunbacked
  have hdedup : dedupOnDownload nfc files entry.sha256 entry.filename t' = (.ok .missing, t') := by
    rw [dedupOnDownload, hsha, if_neg (by simp), hname]
    dsimp only
    rw [hrow]
    dsimp only
    rw [hmissing, dedupRow_missing hmissing]
  have hmalformed : malformedDigest entry = none := by
    rw [malformedDigest, hsha, hblake]
    rfl
  rw [openDownload, hlisted]
  dsimp only
  rw [hmalformed]
  dsimp only
  rw [if_neg fun h => hquota h.2.2, hupsert]
  dsimp only
  rw [hdedup]
  dsimp only
  rw [openAfterDedup, if_neg hsize]

lemma openMissing_eq_started {version : ℕ} (hactive : w.downloadRow mediaId false = .ok downloadId)
    (hhandles : sourceHandles w entry ≠ [])
    (hplan : planDownload downloadId mediaId version entry (pickPrimarySourcePeer entry) = .ok plan)
    (hreceiver : Receiver.new (sourceHandles w entry) = .ok receiver) :
    openMissing w version entry mediaId = .ok (.started mediaId plan receiver) := by
  rw [openMissing, hactive]
  dsimp only
  rw [if_neg hhandles, hplan]
  dsimp only
  rw [hreceiver]

lemma openMissing_eq_waiting {version : ℕ} (hactive : w.downloadRow mediaId false = .ok downloadId)
    (hhandles : sourceHandles w entry = []) :
    openMissing w version entry mediaId = .ok (.waiting mediaId downloadId) := by
  rw [openMissing, hactive]
  exact if_pos hhandles

end Missing

end Locast.Library
