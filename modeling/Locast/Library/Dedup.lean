import Locast.Lib.AssocMap
import Locast.Library.MediaItems
import Locast.Transfer.Plan
import Locast.Transfer.Segments

/-!
# Files of the library, and what is already local

A file of the library stands at the path that its digest and its name make.  `complete_download`
puts an assembled file there; `dedup_on_download` looks for the file that the row of a digest names.
-/

namespace Locast.Library

open Locast.Lib
open Transfer (Bytes is64LowercaseHex)

/-- The regular files below the library root, by their path. -/
abbrev Files : Type := AMap String Bytes

/-! ### Looking a digest up -/

inductive DedupOutcome where
  | alreadyLocal (onDiskPath existingMediaId : String) (existingStatus : MediaStatus)
  | promotedFromTemporary (onDiskPath existingMediaId : String)
  | missing
  deriving DecidableEq

/-- `DedupOutcome::is_local`. -/
def DedupOutcome.isLocal : DedupOutcome → Bool
  | alreadyLocal _ _ _ | promotedFromTemporary _ _ => true
  | missing => false

inductive DedupError where
  | invalidSha (sha256 : String)
  | invalidFilename (e : InvalidFilename)
  deriving DecidableEq

def DedupError.display : DedupError → String
  | invalidSha sha256 => "invalid sha256 \"" ++ sha256 ++ "\": expected 64 lowercase hex chars"
  | invalidFilename e => "invalid desired filename: " ++ e.display

/-- A path with an empty component, `.` or `..` is never trusted. -/
def traverses (path : String) : Bool :=
  (path.toList.splitOn '/').any fun c => c == [] || c == ['.'] || c == ['.', '.']

/-- `verify_local_file`: the file is there and as long as its row says. -/
def verifyLocalFile (files : Files) (path : String) (expectedSize : ℤ) : Option String :=
  if expectedSize = 0 then none
  else
    match files.get path with
    | none => none
    | some bytes => if (bytes.length : ℤ) = expectedSize then some path else none

/-- What the row of a digest leads to. -/
def dedupRow (files : Files) (row : MediaRow) (t : MediaTable) : DedupOutcome × MediaTable :=
  if traverses row.relativePath then (.missing, t)
  else
    match verifyLocalFile files row.relativePath row.sizeBytes with
    | none => (.missing, t)
    | some path =>
      match row.status with
      | .temporary => (.promotedFromTemporary path row.id, t.promote row.id)
      | .permanent => (.alreadyLocal path row.id row.status, t)

/-- `dedup_on_download`. -/
def dedupOnDownload (nfc : List Char → List Char) (files : Files) (sha256 desiredFilename : String)
    (t : MediaTable) : Except DedupError DedupOutcome × MediaTable :=
  if !is64LowercaseHex sha256 then (.error (.invalidSha sha256), t)
  else
    match sanitize nfc desiredFilename with
    | .error e => (.error (.invalidFilename e), t)
    | .ok _ =>
      match t.bySha sha256 with
      | none => (.ok .missing, t)
      | some row => (.ok (dedupRow files row t).1, (dedupRow files row t).2)

/-- The row names a file as long as it says. -/
def Backed (files : Files) (row : MediaRow) : Prop :=
  traverses row.relativePath = false ∧ row.sizeBytes ≠ 0 ∧
    ∃ bytes, files.get row.relativePath = some bytes ∧ (bytes.length : ℤ) = row.sizeBytes

lemma verifyLocalFile_eq_some {files : Files} {path found : String} {size : ℤ} :
    verifyLocalFile files path size = some found ↔ found = path ∧ size ≠ 0 ∧
      ∃ bytes, files.get path = some bytes ∧ (bytes.length : ℤ) = size := by
  unfold verifyLocalFile
  by_cases hsize : size = 0
  · simp [hsize]
  rw [if_neg hsize]
  cases files.get path with
  | none => simp
  | some bytes =>
    dsimp only
    split
    · rename_i hlen
      simp [hsize, hlen, eq_comm]
    · rename_i hlen
      simp [hlen]

/-- **What is answered local**: the row of the digest is backed by its file. -/
theorem isLocal_dedupRow {files : Files} {row : MediaRow} {t : MediaTable} :
    (dedupRow files row t).1.isLocal = true ↔ Backed files row := by
  unfold dedupRow Backed
  cases htrav : traverses row.relativePath with
  | true => simp [DedupOutcome.isLocal]
  | false =>
    rw [if_neg Bool.false_ne_true]
    cases hfile : verifyLocalFile files row.relativePath row.sizeBytes with
    | none =>
      simp only [DedupOutcome.isLocal, Bool.false_eq_true, true_and, false_iff]
      intro h
      rw [verifyLocalFile_eq_some.2 ⟨rfl, h⟩] at hfile
      cases hfile
    | some path =>
      have h := (verifyLocalFile_eq_some.1 hfile).2
      cases row.status <;> exact iff_of_true rfl ⟨rfl, h⟩

/-- A look that finds nothing changes nothing. -/
lemma dedupRow_missing {files : Files} {row : MediaRow} {t : MediaTable}
    (h : (dedupRow files row t).1 = .missing) : (dedupRow files row t).2 = t := by
  unfold dedupRow at h ⊢
  split at h
  · rw [if_pos ‹_›]
  · rename_i htrav
    rw [if_neg htrav]
    cases hfile : verifyLocalFile files row.relativePath row.sizeBytes with
    | none => rfl
    | some path =>
      rw [hfile] at h
      cases hstatus : row.status <;> simp [hstatus] at h

lemma dedupOnDownload_eq_ok {nfc : List Char → List Char} {files : Files}
    {sha256 desiredFilename : String} {t t' : MediaTable} {row : MediaRow} {outcome : DedupOutcome}
    (hrow : t.bySha sha256 = some row)
    (h : dedupOnDownload nfc files sha256 desiredFilename t = (.ok outcome, t')) :
    (dedupRow files row t).1 = outcome ∧ (outcome = .missing → t' = t) := by
  unfold dedupOnDownload at h
  split at h
  · cases (Prod.mk.inj h).1
  split at h
  · cases (Prod.mk.inj h).1
  rw [hrow] at h
  obtain ⟨hout, rfl⟩ := Prod.mk.inj h
  obtain rfl := Except.ok.inj hout
  exact ⟨rfl, dedupRow_missing⟩

/-! ### Storing a file -/

inductive FsError where
  | invalidSha (sha256 : String)
  | invalidFilename (e : InvalidFilename)
  | destinationAlreadyExists
  deriving DecidableEq

/-- `complete_download`: the assembled file moves to the place of its digest and name. -/
def completeDownload (nfc : List Char → List Char) (sha256 filename : String) (content : Bytes)
    (files : Files) : Except FsError Files :=
  if !is64LowercaseHex sha256 then .error (.invalidSha sha256)
  else
    match sanitize nfc filename with
    | .error e => .error (.invalidFilename e)
    | .ok sanitized =>
      if (files.get (relPath sha256 sanitized)).isSome then .error .destinationAlreadyExists
      else .ok (files.insert (relPath sha256 sanitized) content)

lemma completeDownload_eq_ok {nfc : List Char → List Char} {sha256 filename : String}
    {content : Bytes} {files files' : Files}
    (h : completeDownload nfc sha256 filename content files = .ok files') :
    ∃ sanitized, sanitize nfc filename = .ok sanitized ∧
      files.get (relPath sha256 sanitized) = none ∧
        files' = files.insert (relPath sha256 sanitized) content := by
  unfold completeDownload at h
  split at h
  · cases h
  split at h
  · cases h
  · rename_i sanitized hname
    split at h
    · cases h
    · rename_i hfree
      exact ⟨sanitized, hname, by simpa using hfree, (Except.ok.inj h).symm⟩

end Locast.Library
