import Locast.Lib.DirTree
import Locast.Library.LibraryPath

/-!
# Library scans (`library/scan.rs`)

A scan walks the tree below `library/`, hashes every file and brings the rows of `media_items` in
line with what is there; rows without a file are touched.  The hash functions, Unicode's composition
and the fresh ids are parameters.  No other writer is at work and no read fails; there are no
symbolic links, so a path is canonical as it stands.
-/

namespace Locast.Library

open Locast.Lib

/-- What the scanner takes from elsewhere: digests are 64 lowercase digits, and a new id is one that
no row has. -/
structure ScanCrates where
  sha256Hex : List UInt8 → String
  hex : ∀ bytes, validateSha (sha256Hex bytes) = .ok ()
  blake3Hex : List UInt8 → String
  nfc : List Char → List Char
  toStringLossy : List UInt8 → String
  newUuid : List String → String
  fresh : ∀ ids, newUuid ids ∉ ids

/-! ### The tree -/

/-- A name in a directory, which may not be UTF-8. -/
inductive OsName where
  | utf8 (name : String)
  | raw (bytes : List UInt8)
  deriving DecidableEq

namespace OsName

/-- `to_str`. -/
def toStr : OsName → Option String
  | .utf8 name => some name
  | .raw _ => none

/-- `to_string_lossy`. -/
def toStringLossy (crates : ScanCrates) : OsName → String
  | .utf8 name => name
  | .raw bytes => crates.toStringLossy bytes

/-- The order in which a directory is walked. -/
def le (crates : ScanCrates) (a b : OsName) : Prop :=
  a.toStringLossy crates ≤ b.toStringLossy crates

instance (crates : ScanCrates) : DecidableRel (le crates) := fun a b =>
  inferInstanceAs (Decidable (a.toStringLossy crates ≤ b.toStringLossy crates))

end OsName

/-- An entry that is not a directory: a regular file, or something else. -/
inductive DirEntry where
  | file (bytes : List UInt8)
  | other
  deriving DecidableEq

/-- The tree below `library/`. -/
structure LibraryTree where
  dir : Dir OsName DirEntry
  distinct : dir.Distinct

/-- The entries in the order of the walk, with their paths below `library/`. -/
def LibraryTree.walk (crates : ScanCrates) (tree : LibraryTree) : List (List OsName × DirEntry) :=
  tree.dir.walk (OsName.le crates)

/-! ### Statements -/

namespace MediaTable

/-- A row of another digest has the path. -/
def HeldElsewhere (sha256 relativePath : String) (t : MediaTable) : Prop :=
  ∃ r ∈ t.rows, r.sha256 ≠ sha256 ∧ noCase r.relativePath = noCase relativePath

instance (sha256 relativePath : String) (t : MediaTable) :
    Decidable (t.HeldElsewhere sha256 relativePath) :=
  inferInstanceAs (Decidable (∃ r ∈ t.rows, _))

/-- What the update makes of a row. -/
def renamed (sha256 filename relativePath : String) (r : MediaRow) : MediaRow :=
  if r.sha256 = sha256 then { r with filename, relativePath } else r

lemma renamed_id (sha256 filename relativePath : String) (r : MediaRow) :
    (renamed sha256 filename relativePath r).id = r.id := by
  unfold renamed
  split <;> rfl

lemma renamed_sha256 (sha256 filename relativePath : String) (r : MediaRow) :
    (renamed sha256 filename relativePath r).sha256 = r.sha256 := by
  unfold renamed
  split <;> rfl

lemma nodup_renamed {t : MediaTable} {sha256 relativePath : String} (filename : String)
    (h : ¬t.HeldElsewhere sha256 relativePath) :
    ((t.rows.map (renamed sha256 filename relativePath)).map fun r =>
      noCase r.relativePath).Nodup := by
  rw [List.map_map, List.Nodup, List.pairwise_map]
  have hdigests := List.pairwise_map.1 t.digests
  have hpaths := List.pairwise_map.1 t.paths
  refine (hdigests.and hpaths).imp_of_mem fun {r r'} hr hr' hne heq => ?_
  have hother {q : MediaRow} (hq : q ∈ t.rows) (hsha : q.sha256 ≠ sha256) :
      noCase q.relativePath ≠ noCase relativePath := fun heq => h ⟨q, hq, hsha, heq⟩
  simp only [Function.comp, renamed] at heq
  split_ifs at heq with h₁ h₂ h₂
  · exact hne.1 (h₁.trans h₂.symm)
  · exact hother hr' h₂ heq.symm
  · exact hother hr h₁ heq
  · exact hne.2 heq

/-- `UPDATE .. SET filename = ?, relative_path = ? WHERE sha256 = ?`, unless another row has the
path. -/
def rename (sha256 filename relativePath : String) (t : MediaTable) : Option MediaTable :=
  if h : t.HeldElsewhere sha256 relativePath then none
  else some {
    rows := t.rows.map (renamed sha256 filename relativePath)
    ids := by
      rw [List.map_map]
      exact (List.map_congr_left fun r _ => renamed_id sha256 filename relativePath r) ▸ t.ids
    digests := by
      rw [List.map_map]
      exact (List.map_congr_left fun r _ => renamed_sha256 sha256 filename relativePath r) ▸
        t.digests
    paths := nodup_renamed filename h }

/-- `INSERT`, unless a unique column is taken. -/
def insert (row : MediaRow) (t : MediaTable) : Option MediaTable :=
  if t.Taken row then none else some (t.insertOrIgnore row)

end MediaTable

/-- `media_items`, with `last_seen_at` of each id. -/
structure MediaItems where
  table : MediaTable
  lastSeenAt : String → ℤ

/-! ### One file -/

/-- Whether `check_sanitized` accepts a name. -/
def checkSanitized (name : String) : Bool :=
  name ≠ "" && name.toList.all fun c => c ≠ '/' && c ≠ '\\' && c ≠ '\x00'

/-- `content_addressed_path`, below `library/`. -/
def contentAddressedPath (sha sanitizedFilename : String) : Option (List OsName) :=
  match validateSha sha with
  | .error _ => none
  | .ok () =>
    if !checkSanitized sanitizedFilename then none
    else some [.utf8 (String.ofList (sha.toList.take 2)),
      .utf8 (String.ofList ((sha.toList.drop 2).take 2)), .utf8 sha, .utf8 sanitizedFilename]

/-- The outcome for one file. -/
inductive Outcome where
  | changed (relativePath : String)
  | unchanged (relativePath : String)
  | orphanInsert (relativePath : String)
  | failed
  deriving DecidableEq

/-- A file at its canonical path. -/
structure Found where
  sha256 : String
  blake3 : String
  filename : String
  relativePath : String
  size : ℕ
  deriving DecidableEq

/-- `process_file` up to its `SELECT`: the name is sanitized, the content hashed and the path
compared with the canonical one. -/
def found (crates : ScanCrates) (path : List OsName) (bytes : List UInt8) : Option Found :=
  match path.getLast?.bind OsName.toStr with
  | none => none
  | some rawFilename =>
    match sanitize crates.nfc rawFilename with
    | .error _ => none
    | .ok filename =>
      match contentAddressedPath (crates.sha256Hex bytes) filename with
      | none => none
      | some expectedPath =>
        if path ≠ expectedPath then none
        else some {
          sha256 := crates.sha256Hex bytes
          blake3 := crates.blake3Hex bytes
          filename
          relativePath := relPath (crates.sha256Hex bytes) filename
          size := bytes.length }

/-- The row that is made for an orphan. -/
def Found.row (c : Found) (id : String) : MediaRow where
  id
  sha256 := c.sha256
  blake3 := c.blake3
  sizeBytes := c.size
  filename := c.filename
  relativePath := c.relativePath
  status := .permanent

/-- `process_file` from its `SELECT` on. -/
def reconcile (crates : ScanCrates) (now : ℤ) (c : Found) (items : MediaItems) :
    Outcome × MediaItems :=
  match items.table.bySha c.sha256 with
  | some existing =>
    if existing.relativePath = c.relativePath ∧ existing.filename = c.filename then
      (.unchanged c.relativePath, items)
    else
      match items.table.rename c.sha256 c.filename c.relativePath with
      | some table => (.changed c.relativePath, { items with table })
      | none => (.failed, items)
  | none =>
    let row := c.row (crates.newUuid (items.table.rows.map (·.id)))
    match items.table.insert row with
    | some table =>
      (.orphanInsert c.relativePath, ⟨table, Function.update items.lastSeenAt row.id now⟩)
    | none =>
      -- a row of the digest has appeared in between, or another row has the path
      let existing := (items.table.bySha c.sha256).map (·.relativePath)
      (.unchanged (existing.getD c.relativePath), items)

/-- `process_file`. -/
def processFile (crates : ScanCrates) (now : ℤ) (path : List OsName) (bytes : List UInt8)
    (items : MediaItems) : Outcome × MediaItems :=
  match found crates path bytes with
  | none => (.failed, items)
  | some c => reconcile crates now c items

/-! ### The scan -/

structure ScanResult where
  filesScanned : ℕ
  filesUpserted : ℕ
  filesOrphansDiscovered : ℕ
  filesMissing : ℕ
  filesFailed : ℕ
  bytesTotal : ℕ
  deriving DecidableEq

/-- The scan at a point of its walk. -/
structure Walk where
  result : ScanResult
  visited : List String
  items : MediaItems

/-- The body of the loop over the entries. -/
def visit (crates : ScanCrates) (now : ℤ) (w : Walk) (entry : List OsName × DirEntry) : Walk :=
  match entry.2 with
  | .other => w
  | .file bytes =>
    let size := bytes.length
    if size = 0 then w
    else
      let result := { w.result with filesScanned := w.result.filesScanned + 1 }
      match processFile crates now entry.1 bytes w.items with
      | (.changed rel, items) =>
        { visited := w.visited ++ [rel]
          items
          result := { result with
            filesUpserted := result.filesUpserted + 1
            bytesTotal := result.bytesTotal + size } }
      | (.unchanged rel, items) =>
        { visited := w.visited ++ [rel]
          items
          result := { result with bytesTotal := result.bytesTotal + size } }
      | (.orphanInsert rel, items) =>
        { visited := w.visited ++ [rel]
          items
          result := { result with
            filesUpserted := result.filesUpserted + 1
            filesOrphansDiscovered := result.filesOrphansDiscovered + 1
            bytesTotal := result.bytesTotal + size } }
      | (.failed, items) =>
        { w with
          items
          result := { result with filesFailed := result.filesFailed + 1 } }

/-- `walk_library`. -/
def walkLibrary (crates : ScanCrates) (now : ℤ) (tree : LibraryTree) (w : Walk) : Walk :=
  (tree.walk crates).foldl (visit crates now) w

/-- The ids of the rows whose path was not visited. -/
def missingIds (visited : List String) (table : MediaTable) : List String :=
  (table.rows.filter fun r => r.relativePath ∉ visited).map (·.id)

/-- `mark_missing_files`. -/
def markMissingFiles (now : ℤ) (visited : List String) (items : MediaItems) : ℕ × MediaItems :=
  let missing := missingIds visited items.table
  (missing.length,
    { items with lastSeenAt := fun id => if id ∈ missing then now else items.lastSeenAt id })

/-- **`scan`.** -/
def scan (crates : ScanCrates) (now : ℤ) (tree : LibraryTree) (items : MediaItems) :
    ScanResult × MediaItems :=
  let w := walkLibrary crates now tree ⟨⟨0, 0, 0, 0, 0, 0⟩, [], items⟩
  let marked := markMissingFiles now w.visited w.items
  ({ w.result with filesMissing := marked.1 }, marked.2)

end Locast.Library
