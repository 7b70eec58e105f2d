import Locast.Library.OpenDownload
import Locast.Transfer.Placement

/-!
# A completed download in the library

A run stores the file under the name that the manifest gives it; the row of its digest keeps the
path that it was made with.  The library finds the file again exactly when the two are one path.
-/

namespace Locast.Library

open Locast.Lib
open Protocol (MediaEntry MediaManifest)
open Transfer
  (Bytes DownloadPlan Receiver is64LowercaseHex runMultiSource RunParams ActRecord Ending Work
    freshSources)

variable {nfc : List Char → List Char}

/-! ### Where a file is put -/

/-- A digest is sixty-four letters and digits. -/
lemma digest_of_hex {sha256 : String} (h : is64LowercaseHex sha256 = true) :
    sha256.toList.length = 64 ∧ ∀ c ∈ sha256.toList, c ≠ '/' ∧ c ≠ '.' := by
  unfold is64LowercaseHex at h
  rw [Bool.and_eq_true, beq_iff_eq, List.all_eq_true] at h
  obtain ⟨hsize, hall⟩ := h
  refine ⟨?_, fun c hc => ?_⟩
  · have hone : sha256.toList.map Char.utf8Size = sha256.toList.map fun _ => 1 :=
      List.map_congr_left fun c hc =>
        JsonText.utf8Size_of_plain (Transfer.plain_of_hex (by simp [hall c hc]))
    rw [← hsize, ← String.ofList_toList (s := sha256), Base64.utf8ByteSize_ofList,
      String.toList_ofList, hone]
    simp
  · have hc := hall c hc
    constructor <;> rintro rfl <;> revert hc <;> decide

/-- The place of a digest and a sanitized name leads nowhere else. -/
lemma traverses_relPath (hnfc : ∀ l, '/' ∈ nfc l → '/' ∈ l) {sha256 filename sanitized : String}
    (hsha : is64LowercaseHex sha256 = true) (hname : sanitize nfc filename = .ok sanitized) :
    traverses (relPath sha256 sanitized) = false := by
  obtain ⟨hne, hdot, hdots, hslash⟩ := component_of_sanitize hnfc hname
  obtain ⟨hlen, hplain⟩ := digest_of_hex hsha
  have hpart : ∀ l : List Char, l ⊆ sha256.toList → l ≠ [] →
      '/' ∉ l ∧ (l == [] || l == ['.'] || l == ['.', '.']) = false := fun l hsub hne => by
    refine ⟨fun h => (hplain _ (hsub h)).1 rfl, ?_⟩
    cases l with
    | nil => exact absurd rfl hne
    | cons c l =>
      have hc : c ≠ '.' := (hplain c (hsub List.mem_cons_self)).2
      simp [hc]
  have htake : sha256.toList.take 2 ≠ [] := List.ne_nil_of_length_pos (by simp [hlen])
  have hdrop : (sha256.toList.drop 2).take 2 ≠ [] := List.ne_nil_of_length_pos (by simp [hlen])
  have hall : sha256.toList ≠ [] := List.ne_nil_of_length_pos (by simp [hlen])
  have h₁ := hpart _ (List.take_subset _ _) htake
  have h₂ := hpart _ (List.Subset.trans (List.take_subset _ _) (List.drop_subset _ _)) hdrop
  have h₃ := hpart _ (List.Subset.refl _) hall
  rw [traverses, relPath_toList, List.splitOn_intercalate _ ?_ (List.cons_ne_nil _ _)]
  · simp only [List.any_cons, List.any_nil, Bool.or_false, h₁.2, h₂.2, h₃.2]
    simp [hne, hdot, hdots]
  · simp only [List.forall_mem_cons]
    exact ⟨by decide, h₁.1, h₂.1, h₃.1, hslash, fun l hl => by simp at hl⟩

/-- What a run did to the files: the content that it placed, if any, under the manifest's name. -/
def Stores (nfc : List Char → List Char) (sha256 filename : String) (files files' : Files) :
    Option Bytes → Prop
  | none => files' = files
  | some content => completeDownload nfc sha256 filename content files = .ok files'

/-! ### What comes later -/

/-- What else may happen to a library: downloads are opened, and files are stored. -/
inductive Later (nfc : List Char → List Char) (s : Files × MediaTable) : Files × MediaTable → Prop
  | now : Later nfc s s
  | opened {files : Files} {t t' : MediaTable} {w : OpenWorld} {manifest : MediaManifest}
    {mediaId : String} {out : Except OpenError Opened} (h : Later nfc s (files, t))
    (hopen : openDownload nfc w manifest mediaId files t = (out, t')) : Later nfc s (files, t')
  | stored {files files' : Files} {t : MediaTable} {sha256 filename : String} {content : Bytes}
    (h : Later nfc s (files, t))
    (hstored : completeDownload nfc sha256 filename content files = .ok files') :
    Later nfc s (files', t)

/-- The digest has a row, and the row is backed by its file. -/
def Holds (files : Files) (t : MediaTable) (sha256 : String) : Prop :=
  ∃ row, t.bySha sha256 = some row ∧ Backed files row

lemma bySha_upsert {entry : MediaEntry} {t t' : MediaTable} {r : Except String String}
    {sha256 : String} {row : MediaRow} (hrow : t.bySha sha256 = some row)
    (h : upsertMediaItemFromManifest nfc entry t = (r, t')) : t'.bySha sha256 = some row := by
  unfold upsertMediaItemFromManifest at h
  split at h
  · exact (Prod.mk.inj h).2 ▸ hrow
  split at h
  · exact (Prod.mk.inj h).2 ▸ hrow
  rename_i sanitized hname
  have hkept : (t.insertOrIgnore (rowOf entry sanitized)).bySha sha256 = some row := by
    obtain ⟨hmem, hsha⟩ := MediaTable.bySha_eq_some.1 hrow
    refine MediaTable.bySha_eq_some.2 ⟨?_, hsha⟩
    unfold MediaTable.insertOrIgnore
    split
    · exact hmem
    · exact List.mem_append_left _ hmem
  dsimp only at h
  split at h <;> exact (Prod.mk.inj h).2 ▸ hkept

lemma holds_promote {files : Files} {t : MediaTable} {sha256 id : String}
    (h : Holds files t sha256) : Holds files (t.promote id) sha256 := by
  obtain ⟨row, hrow, hbacked⟩ := h
  refine ⟨_, by rw [MediaTable.bySha_promote, hrow, Option.map_some], ?_⟩
  split
  · exact hbacked
  · exact hbacked

lemma holds_dedupOnDownload {files : Files} {t t' : MediaTable} {sha256 sha256' filename : String}
    {r : Except DedupError DedupOutcome} (hheld : Holds files t sha256)
    (h : dedupOnDownload nfc files sha256' filename t = (r, t')) : Holds files t' sha256 := by
  unfold dedupOnDownload at h
  split at h
  · exact (Prod.mk.inj h).2 ▸ hheld
  split at h
  · exact (Prod.mk.inj h).2 ▸ hheld
  split at h
  · exact (Prod.mk.inj h).2 ▸ hheld
  rw [← (Prod.mk.inj h).2]
  unfold dedupRow
  split
  · exact hheld
  split
  · exact hheld
  split
  · exact holds_promote hheld
  · exact hheld

/-- What an open download does to a row that is backed: it stays backed. -/
lemma holds_openDownload {files : Files} {t t' : MediaTable} {sha256 mediaId : String}
    {w : OpenWorld} {manifest : MediaManifest} {out : Except OpenError Opened}
    (hheld : Holds files t sha256) (h : openDownload nfc w manifest mediaId files t = (out, t')) :
    Holds files t' sha256 := by
  unfold openDownload at h
  split at h
  · exact (Prod.mk.inj h).2 ▸ hheld
  rename_i entry hentry
  split at h
  · exact (Prod.mk.inj h).2 ▸ hheld
  split at h
  · exact (Prod.mk.inj h).2 ▸ hheld
  rcases hupsert : upsertMediaItemFromManifest nfc entry t with ⟨r, t₁⟩
  have hheld₁ : Holds files t₁ sha256 := by
    obtain ⟨row, hrow, hbacked⟩ := hheld
    exact ⟨row, bySha_upsert hrow hupsert, hbacked⟩
  rw [hupsert] at h
  cases r with
  | error e => exact (Prod.mk.inj h).2 ▸ hheld₁
  | ok rowId =>
    dsimp only at h
    rcases hdedup : dedupOnDownload nfc files entry.sha256 entry.filename t₁ with ⟨r, t₂⟩
    have hheld₂ := holds_dedupOnDownload hheld₁ hdedup
    rw [hdedup] at h
    cases r with
    | error e => exact (Prod.mk.inj h).2 ▸ hheld₂
    | ok outcome => exact (Prod.mk.inj h).2 ▸ hheld₂

/-- A file that is stored takes no other's place. -/
lemma holds_completeDownload {files files' : Files} {t : MediaTable}
    {sha256 sha256' filename : String} {content : Bytes} (hheld : Holds files t sha256)
    (h : completeDownload nfc sha256' filename content files = .ok files') :
    Holds files' t sha256 := by
  obtain ⟨row, hrow, htrav, hsize, bytes, hget, hlen⟩ := hheld
  obtain ⟨sanitized, -, hfree, rfl⟩ := completeDownload_eq_ok h
  refine ⟨row, hrow, htrav, hsize, bytes, ?_, hlen⟩
  have hne : row.relativePath ≠ relPath sha256' sanitized := fun heq => by
    rw [heq, hfree] at hget
    cases hget
  rw [AList.get_insert, if_neg hne]
  exact hget

/-- **A row that is backed stays so.** -/
theorem holds_later {s s' : Files × MediaTable} {sha256 : String} (h : Later nfc s s')
    (hheld : Holds s.1 s.2 sha256) : Holds s'.1 s'.2 sha256 := by
  induction h with
  | now => exact hheld
  | opened h hopen ih => exact holds_openDownload ih hopen
  | stored h hstored ih => exact holds_completeDownload ih hstored

/-! ### Coherence -/

/-- **A digest that the library has**: one row, which names a file with the digest; a look for it is
answered local, and whatever comes later, no download of it is started. -/
structure Coherent (nfc : List Char → List Char) (sha256Hex : Bytes → String) (files : Files)
    (t : MediaTable) (sha256 : String) : Prop where
  unique : ∃! row, row ∈ t.rows ∧ row.sha256 = sha256
  names : ∀ row ∈ t.rows, row.sha256 = sha256 →
    ∃ content, files.get row.relativePath = some content ∧ sha256Hex content = sha256
  isLocal : ∀ filename, (∃ sanitized, sanitize nfc filename = .ok sanitized) →
    ∃ outcome t', dedupOnDownload nfc files sha256 filename t = (.ok outcome, t') ∧
      outcome.isLocal = true
  settled : ∀ files' t', Later nfc (files, t) (files', t') →
    ∀ w manifest mediaId id plan receiver t'',
      openDownload nfc w manifest mediaId files' t' = (.ok (.started id plan receiver), t'') →
        plan.sha256 ≠ sha256

lemma dedupOnDownload_of_row {files : Files} {t : MediaTable} {sha256 filename sanitized : String}
    {row : MediaRow} (hsha : is64LowercaseHex sha256 = true)
    (hname : sanitize nfc filename = .ok sanitized) (hrow : t.bySha sha256 = some row) :
    dedupOnDownload nfc files sha256 filename t =
      (.ok (dedupRow files row t).1, (dedupRow files row t).2) := by
  simp [dedupOnDownload, hsha, hname, hrow]

/-- The row that an entry leads to has the digest of the plan, and is not backed. -/
lemma StartedFor.planned_sha256 {w : OpenWorld} {manifest : MediaManifest} {mediaId : String}
    {files : Files} {t t' : MediaTable} {entry : MediaEntry} {row : MediaRow} {downloadId : String}
    {plan : DownloadPlan} {receiver : Receiver}
    (h : StartedFor nfc w manifest mediaId files t t' entry row downloadId plan receiver) :
    plan.sha256 = entry.sha256 ∧ plan.sizeBytes = entry.sizeBytes ∧
      is64LowercaseHex entry.sha256 = true := by
  have hsha := (Transfer.wellFormed_of_planDownload h.planned).sha256
  obtain ⟨source, hsource, rfl⟩ := Transfer.planDownload_eq_ok.1 h.planned
  exact ⟨rfl, rfl, hsha⟩

/-- A digest that is held is not fetched. -/
lemma ne_of_started {files : Files} {t t' : MediaTable} {sha256 : String}
    (hheld : Holds files t sha256) {w : OpenWorld} {manifest : MediaManifest} {mediaId id : String}
    {plan : DownloadPlan}
    {receiver : Receiver}
    (h : openDownload nfc w manifest mediaId files t = (.ok (.started id plan receiver), t')) :
    plan.sha256 ≠ sha256 := by
  rintro rfl
  obtain ⟨row, hrow, hbacked⟩ := hheld
  obtain ⟨entry, row', downloadId, hstart, -⟩ := startedFor_of_openDownload h
  rw [hstart.planned_sha256.1] at hrow
  have hsame : row' = row := by
    rcases hstart.origin with h | ⟨h, -⟩
    · exact Option.some.inj (h.symm.trans hrow)
    · rw [h] at hrow
      cases hrow
  exact hstart.unbacked (hsame ▸ hbacked)

lemma coherent_iff {sha256Hex : Bytes → String} {files : Files} {t : MediaTable} {row : MediaRow}
    (hsha : is64LowercaseHex row.sha256 = true) (hrow : t.bySha row.sha256 = some row)
    {filename sanitized : String} (hname : sanitize nfc filename = .ok sanitized)
    (hcontent : ∀ content, files.get row.relativePath = some content →
      Backed files row → sha256Hex content = row.sha256) :
    Coherent nfc sha256Hex files t row.sha256 ↔ Backed files row := by
  constructor
  · intro h
    obtain ⟨outcome, t', hdedup, hlocal⟩ := h.isLocal filename ⟨sanitized, hname⟩
    rw [← (dedupOnDownload_eq_ok hrow hdedup).1] at hlocal
    exact isLocal_dedupRow.1 hlocal
  · intro hbacked
    have honly : ∀ other ∈ t.rows, other.sha256 = row.sha256 → other = row := fun other hmem heq =>
      Option.some.inj ((MediaTable.bySha_eq_some.2 ⟨hmem, heq⟩).symm.trans hrow)
    refine ⟨⟨row, MediaTable.bySha_eq_some.1 hrow, fun other h => honly other h.1 h.2⟩, ?_, ?_, ?_⟩
    · intro other hmem heq
      obtain rfl := honly other hmem heq
      obtain ⟨-, -, content, hget, -⟩ := id hbacked
      exact ⟨content, hget, hcontent content hget hbacked⟩
    · rintro name ⟨out, hout⟩
      exact ⟨_, _, dedupOnDownload_of_row hsha hout hrow, isLocal_dedupRow.2 hbacked⟩
    · intro files' t' hlater w manifest mediaId id plan receiver t'' hopen
      exact ne_of_started (holds_later hlater ⟨row, hrow, hbacked⟩) hopen

/-- The row that the library has for the digest of an entry, if it has one, was made for a file of
this name and size. -/
def Fits (nfc : List Char → List Char) (entry : MediaEntry) (t : MediaTable) : Prop :=
  ∀ row, t.bySha entry.sha256 = some row →
    (∃ sanitized, sanitize nfc entry.filename = .ok sanitized ∧
      row.relativePath = relPath entry.sha256 sanitized) ∧ row.sizeBytes = entry.sizeBytes

section Run

variable {w : OpenWorld} {manifest : MediaManifest} {mediaId id downloadId : String}
  {files files' : Files} {t t' : MediaTable} {entry : MediaEntry} {row : MediaRow} {ps : RunParams}
  {receiver : Receiver}

/-- The run of a started download leaves the content of the plan in the library, or nothing. -/
lemma StartedFor.delivered {fuel : ℕ} {tr : List ActRecord} {e : Ending}
    (h : StartedFor nfc w manifest mediaId files t t' entry row downloadId ps.plan receiver)
    (hrun : (runMultiSource ps fuel receiver).Does tr (.ret (some e))) :
    Transfer.Delivered ps (e.outcome = .ok .complete) (Work.after tr) := by
  have hsources : sourceHandles w entry = freshSources ((entry.sources.filter fun s =>
      Transfer.isCanonicalPeerId s.peerId && w.connected.contains s.peerId).map
        fun s => (s.peerId, s.priority)) := by
    simp [sourceHandles, freshSources]
  have hnew := h.sources
  rw [hsources] at hnew
  exact Transfer.delivered_of_run (Transfer.layout_of_planDownload h.planned) hnew hrun

/-- **When the row of the digest is backed** after its content was stored. -/
lemma StartedFor.backed_iff (hnfc : ∀ l, '/' ∈ nfc l → '/' ∈ l)
    (h : StartedFor nfc w manifest mediaId files t t' entry row downloadId ps.plan receiver)
    {sanitized : String} (hname : sanitize nfc entry.filename = .ok sanitized) {content : Bytes}
    (hgenuine : Transfer.Genuine ps content) :
    Backed (files.insert (relPath entry.sha256 sanitized) content) row ↔
      row.relativePath = relPath entry.sha256 sanitized ∧ row.sizeBytes = entry.sizeBytes := by
  obtain ⟨-, hsize, hsha⟩ := h.planned_sha256
  have hlen : (content.length : ℤ) = entry.sizeBytes := by rw [hgenuine.1, hsize]
  constructor
  · rintro ⟨htrav, hne, bytes, hget, hbytes⟩
    rw [AList.get_insert] at hget
    split at hget
    · rename_i hpath
      obtain rfl := Option.some.inj hget
      exact ⟨hpath, hbytes.symm.trans hlen⟩
    · exact absurd ⟨htrav, hne, bytes, hget, hbytes⟩ h.unbacked
  · rintro ⟨hpath, hrow⟩
    refine ⟨hpath ▸ traverses_relPath hnfc hsha hname, ?_, content, ?_, hlen.trans hrow.symm⟩
    · rw [hrow]
      exact_mod_cast h.nonempty
    · rw [hpath, AList.get_insert_self]

lemma StartedFor.fits_iff
    (h : StartedFor nfc w manifest mediaId files t t' entry row downloadId ps.plan receiver)
    {sanitized : String} (hname : sanitize nfc entry.filename = .ok sanitized) :
    Fits nfc entry t ↔
      row.relativePath = relPath entry.sha256 sanitized ∧ row.sizeBytes = entry.sizeBytes := by
  rcases h.origin with hrow | ⟨hnone, sanitized', hname', rfl⟩
  · constructor
    · intro hfits
      obtain ⟨⟨sanitized', hname', hpath⟩, hsize⟩ := hfits row hrow
      rw [hname] at hname'
      exact ⟨Except.ok.inj hname' ▸ hpath, hsize⟩
    · rintro ⟨hpath, hsize⟩ other hother
      obtain rfl := Option.some.inj (hrow.symm.trans hother)
      exact ⟨⟨sanitized, hname, hpath⟩, hsize⟩
  · rw [hname] at hname'
    obtain rfl := Except.ok.inj hname'
    refine iff_of_true (fun other hother => ?_) ⟨rfl, rfl⟩
    rw [hnone] at hother
    cases hother

/-- **When a stored file is one that the library has**: the row of its digest, if there was one
before, was made for a file of this name and size. -/
lemma StartedFor.coherent_iff_fits (hnfc : ∀ l, '/' ∈ nfc l → '/' ∈ l)
    (h : StartedFor nfc w manifest mediaId files t t' entry row downloadId ps.plan receiver)
    {content : Bytes} (hgenuine : Transfer.Genuine ps content)
    (hstores : completeDownload nfc entry.sha256 entry.filename content files = .ok files') :
    Coherent nfc ps.sha256Hex files' t' entry.sha256 ↔ Fits nfc entry t := by
  have hrow := h.found
  obtain ⟨-, hsha⟩ := MediaTable.bySha_eq_some.1 hrow
  obtain ⟨sanitized, hname, hfree, rfl⟩ := completeDownload_eq_ok hstores
  have hbacked := h.backed_iff hnfc hname hgenuine
  rw [h.fits_iff hname, ← hbacked, ← hsha]
  have hhex : is64LowercaseHex row.sha256 = true := hsha ▸ h.planned_sha256.2.2
  refine coherent_iff hhex (hsha ▸ hrow) hname fun other hget hb => ?_
  rw [(hbacked.1 (hsha ▸ hb)).1, hsha, AList.get_insert_self] at hget
  rw [← Option.some.inj hget, hgenuine.2, h.planned_sha256.1, hsha]

/-- **A completed download is one that the library has** exactly when the row of its digest, if
there was one before, was made for a file of this name and size.  If nothing was stored, no row of
the digest is backed. -/
theorem completion_coherent (hnfc : ∀ l, '/' ∈ nfc l → '/' ∈ l)
    (hopen : openDownload nfc w manifest mediaId files t = (.ok (.started id ps.plan receiver), t'))
    (hentry : (manifest.media.find? fun m => m.id == mediaId) = some entry) {fuel : ℕ}
    {tr : List ActRecord} {e : Ending}
    (hrun : (runMultiSource ps fuel receiver).Does tr (.ret (some e)))
    (hstores : Stores nfc entry.sha256 entry.filename files files' (Work.after tr).placed) :
    (e.outcome = .ok .complete →
      (Coherent nfc ps.sha256Hex files' t' entry.sha256 ↔ Fits nfc entry t)) ∧
    ((Work.after tr).placed = none →
      ∀ row ∈ t'.rows, row.sha256 = entry.sha256 → ¬Backed files' row) := by
  obtain ⟨entry', row, downloadId, hstart, -⟩ := startedFor_of_openDownload hopen
  obtain rfl : entry' = entry := Option.some.inj (hstart.listed.symm.trans hentry)
  refine ⟨fun hcomplete => ?_, fun hnone other hmem heq => ?_⟩
  · rcases hstart.delivered hrun with ⟨content, hplaced, hgenuine⟩ | ⟨hne, -⟩
    · rw [hplaced] at hstores
      exact hstart.coherent_iff_fits hnfc hgenuine hstores
    · exact absurd hcomplete hne
  · rw [hnone] at hstores
    obtain rfl : files' = files := hstores
    have hother := MediaTable.bySha_eq_some.2 ⟨hmem, heq⟩
    obtain rfl := Option.some.inj (hstart.found.symm.trans hother)
    exact hstart.unbacked

end Run

/-! ### A file of one letter -/

namespace OneLetter

open Transfer.OneChunk

/-- The quota has room, the table of downloads has a row, and these peers are connected. -/
def world (connected : List String) : OpenWorld where
  used := 0
  cap := 1000000000
  downloadRow := fun _ _ => .ok "d"
  zeroByteRow := fun _ => .ok ()
  markComplete := fun _ => .ok ()
  connected := connected

/-- A manifest with the one entry, under a name. -/
def published (filename : String) : MediaManifest :=
  ⟨1, "room", [{ entry with filename := filename }], [], 0, none⟩

lemma listed : ((published "a.txt").media.find? fun m => m.id == "m") = some entry :=
  List.find?_cons_of_pos (beq_self_eq_true _)

lemma sanitize_a : sanitize id "a.txt" = .ok "a.txt" := by decide

lemma unbacked_empty (row : MediaRow) : ¬Backed ∅ row := fun ⟨_, _, _, hget, _⟩ => by cases hget

lemma pick_entry : pickPrimarySourcePeer entry = hostId := by
  rw [pickPrimarySourcePeer, entry]
  rfl

/-- Its one source is the host. -/
lemma handles_host : sourceHandles (world [hostId]) entry = freshSources [(hostId, 0)] := by
  have hcanonical : Transfer.isCanonicalPeerId hostId = true := hostId_hex
  have hconnected : (world [hostId]).connected.contains hostId = true := by
    rw [world, List.contains_cons, beq_self_eq_true, Bool.true_or]
  rw [sourceHandles, entry, List.filter_cons_of_pos (by rw [hcanonical, hconnected]; rfl)]
  rfl

/-- The download starts, whatever the id of the row is. -/
lemma starts {t t' : MediaTable} {row : MediaRow}
    (hstored : t.bySha sha256 = some row ∧ t' = t ∨
      t.bySha sha256 = none ∧ t' = t.insertOrIgnore (rowOf entry "a.txt"))
    (hrow : t'.bySha sha256 = some row) (hid : row.id = "m") :
    openDownload id (world [hostId]) (published "a.txt") "m" ∅ t =
      (.ok (.started "m" params.plan (start [(hostId, 0)])), t') := by
  have hplan : Transfer.planDownload "d" "m" (published "a.txt").manifestVersion entry
      (pickPrimarySourcePeer entry) = .ok params.plan := by
    rw [pick_entry]
    exact planned
  rw [openDownload_eq_missing listed sha256_hex blake3_hex Nat.one_ne_zero (by decide) sanitize_a
    hstored hrow (unbacked_empty row), hid]
  refine congrArg (·, t') (openMissing_eq_started (w := world [hostId]) rfl ?_ hplan ?_)
  · rw [handles_host]
    exact List.cons_ne_nil _ _
  · rw [handles_host]
    exact started

/-- The host serves the chunk, and the download completes. -/
lemma completes : ∃ tr s, (runMultiSource params 2 (start [(hostId, 0)])).Does tr
    (.ret (some ⟨.ok .complete, s⟩)) := by
  have hrun : ∃ tr e, (runMultiSource params 2 (start [(hostId, 0)])).Does tr (.ret (some e)) ∧
      (∀ x ∈ tr, (fun _ => true) x = true) ∧ decide (e.outcome = .ok .complete) = true :=
    Transfer.exists_does (Transfer.OneChunk.world .pending) inputs _ _ (by decide +kernel)
  obtain ⟨tr, ⟨outcome, s⟩, hdoes, -, hok⟩ := hrun
  obtain rfl : outcome = .ok .complete := of_decide_eq_true hok
  exact ⟨tr, s, hdoes⟩

/-- What it leaves can be stored in an empty library. -/
lemma stores {tr : List ActRecord} {s : Receiver}
    (hrun : (runMultiSource params 2 (start [(hostId, 0)])).Does tr
      (.ret (some ⟨.ok .complete, s⟩))) :
    ∃ files', Stores id sha256 "a.txt" ∅ files' (Work.after tr).placed := by
  rcases Transfer.delivered_of_run (Transfer.layout_of_planDownload planned) started hrun with
    ⟨content, hplaced, -⟩ | ⟨hne, -⟩
  · rw [hplaced]
    refine ⟨(∅ : Files).insert (relPath sha256 "a.txt") content, ?_⟩
    simp [Stores, completeDownload, sha256_hex, sanitize_a]
  · exact absurd rfl hne

/-- A library that never had the film has it afterwards. -/
theorem completion_coherent_new : ∃ rowId t' tr s files',
    openDownload id (world [hostId]) (published "a.txt") "m" ∅ MediaTable.empty =
      (.ok (.started rowId params.plan (start [(hostId, 0)])), t') ∧
    (runMultiSource params 2 (start [(hostId, 0)])).Does tr (.ret (some ⟨.ok .complete, s⟩)) ∧
    Stores id sha256 "a.txt" ∅ files' (Work.after tr).placed ∧
    Coherent id params.sha256Hex files' t' sha256 := by
  have hnew : MediaTable.empty.bySha sha256 = none := rfl
  have hrow : (MediaTable.empty.insertOrIgnore (rowOf entry "a.txt")).bySha sha256 =
      some (rowOf entry "a.txt") :=
    MediaTable.bySha_first (rowOf entry "a.txt")
  have hopen := starts (.inr ⟨hnew, rfl⟩) hrow rfl
  obtain ⟨tr, s, hrun⟩ := completes
  obtain ⟨files', hstores⟩ := stores hrun
  refine ⟨"m", _, tr, s, files', hopen, hrun, hstores, ?_⟩
  refine ((completion_coherent (fun l => id) hopen listed hrun hstores).1 rfl).2 fun row hrow => ?_
  cases hrow

/-- Every row that is ready names a file with its digest. -/
def ReadyRows (sha256Hex : Bytes → String) (files : Files) (t : MediaTable) : Prop :=
  ∀ row ∈ t.rows, row.status = .permanent →
    ∃ content, files.get row.relativePath = some content ∧ sha256Hex content = row.sha256

/-- The row of the film as it was named before. -/
def oldRow : MediaRow := rowOf { entry with filename := "b.txt" } "b.txt"

def oldRows : MediaTable := MediaTable.empty.insertOrIgnore oldRow

lemma oldRow_found : oldRows.bySha sha256 = some oldRow :=
  MediaTable.bySha_first oldRow

/-- Opened while the host is away, the film gets its row and waits. -/
lemma waits : openDownload id (world []) (published "b.txt") "m" ∅ MediaTable.empty =
    (.ok (.waiting "m" "d"), oldRows) := by
  have hname : sanitize id "b.txt" = .ok "b.txt" := by decide
  have hlisted : ((published "b.txt").media.find? fun m => m.id == "m") =
      some { entry with filename := "b.txt" } := List.find?_cons_of_pos (beq_self_eq_true _)
  have hnone : sourceHandles (world []) { entry with filename := "b.txt" } = [] := by
    rw [sourceHandles, world, List.filter_eq_nil_iff.2 fun s _ => by simp]
    rfl
  rw [openDownload_eq_missing hlisted sha256_hex blake3_hex Nat.one_ne_zero (by decide) hname
    (.inr ⟨rfl, rfl⟩) oldRow_found (unbacked_empty oldRow)]
  have hwaits : openMissing (world []) (published "b.txt").manifestVersion
      { entry with filename := "b.txt" } oldRow.id = .ok (.waiting "m" "d") :=
    openMissing_eq_waiting rfl hnone
  exact congrArg (·, oldRows) hwaits

/-- The film was opened under another name while the host was away.  Now it is downloaded, and the
row still names the other file. -/
theorem not_completion_coherent : ∃ rowId t' tr s files',
    openDownload id (world []) (published "b.txt") "m" ∅ MediaTable.empty =
      (.ok (.waiting "m" "d"), oldRows) ∧ ReadyRows params.sha256Hex ∅ oldRows ∧
    openDownload id (world [hostId]) (published "a.txt") "m" ∅ oldRows =
      (.ok (.started rowId params.plan (start [(hostId, 0)])), t') ∧
    (runMultiSource params 2 (start [(hostId, 0)])).Does tr (.ret (some ⟨.ok .complete, s⟩)) ∧
    Stores id sha256 "a.txt" ∅ files' (Work.after tr).placed ∧
    ¬Coherent id params.sha256Hex files' t' sha256 := by
  have hrows : oldRows.rows = [oldRow] := by
    rw [oldRows, MediaTable.insertOrIgnore, dif_neg (MediaTable.not_taken_empty _)]
    rfl
  have hopen := starts (.inl ⟨oldRow_found, rfl⟩) oldRow_found rfl
  obtain ⟨tr, s, hrun⟩ := completes
  obtain ⟨files', hstores⟩ := stores hrun
  refine ⟨"m", oldRows, tr, s, files', waits, fun row hrow hready => ?_, hopen, hrun, hstores, ?_⟩
  · rw [hrows, List.mem_singleton] at hrow
    subst hrow
    cases hready
  · intro hcoherent
    obtain ⟨entry', row, downloadId, hstart, -⟩ := startedFor_of_openDownload hopen
    obtain rfl := Option.some.inj (listed.symm.trans hstart.listed)
    have hdelivered : Transfer.Delivered params True (Work.after tr) := by
      simpa using hstart.delivered hrun
    obtain ⟨content, hplaced, hgenuine⟩ | ⟨hne, -⟩ := hdelivered
    swap
    · exact hne trivial
    rw [hplaced] at hstores
    have hfits := (hstart.coherent_iff_fits (fun l => id) hgenuine hstores).1 hcoherent
    obtain ⟨⟨sanitized, hname, hpath⟩, -⟩ := hfits oldRow oldRow_found
    obtain rfl := Except.ok.inj (hname.symm.trans sanitize_a)
    exact absurd (relPath_right_inj.1 hpath) (by decide)

end OneLetter

end Locast.Library
