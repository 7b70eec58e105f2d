import Locast.Library.Sanitize
import Locast.Protocol.Manifest
import Mathlib.Data.List.Nodup

/-!
# The media rows of the library

`media_items` has three unique columns: the id, the digest and the path, which is compared without
regard to case.  A row is made for a manifest entry before its file is there, so a row alone says
nothing about a file.
-/

namespace Locast.Library

open Protocol (MediaEntry)

/-! ### The table -/

inductive MediaStatus where
  | permanent
  | temporary
  deriving DecidableEq

structure MediaRow where
  id : String
  sha256 : String
  blake3 : String
  sizeBytes : ℤ
  filename : String
  relativePath : String
  status : MediaStatus
  deriving DecidableEq

/-- `COLLATE NOCASE`: letters of ASCII are compared without regard to case. -/
def noCase (s : String) : List Char := s.toList.map Char.toLower

/-- The rows, with the constraints of the schema. -/
structure MediaTable where
  rows : List MediaRow
  ids : (rows.map MediaRow.id).Nodup
  digests : (rows.map MediaRow.sha256).Nodup
  paths : (rows.map fun r => noCase r.relativePath).Nodup

namespace MediaTable

def empty : MediaTable := ⟨[], .nil, .nil, .nil⟩

/-- `SELECT .. WHERE sha256 = ?`. -/
def bySha (sha256 : String) (t : MediaTable) : Option MediaRow :=
  t.rows.find? fun r => r.sha256 == sha256

/-- A unique column of the row is taken. -/
def Taken (row : MediaRow) (t : MediaTable) : Prop :=
  row.id ∈ t.rows.map MediaRow.id ∨ row.sha256 ∈ t.rows.map MediaRow.sha256 ∨
    noCase row.relativePath ∈ t.rows.map fun r => noCase r.relativePath

instance (row : MediaRow) (t : MediaTable) : Decidable (t.Taken row) :=
  inferInstanceAs (Decidable (_ ∨ _))

lemma nodup_concat {α β : Type} {f : α → β} {l : List α} {a : α} (h : (l.map f).Nodup)
    (ha : f a ∉ l.map f) : ((l ++ [a]).map f).Nodup := by
  rw [List.map_append, List.map_cons, List.map_nil]
  exact List.nodup_append'.2 ⟨h, List.nodup_singleton _, by simpa using ha⟩

/-- `INSERT OR IGNORE`. -/
def insertOrIgnore (row : MediaRow) (t : MediaTable) : MediaTable :=
  if h : t.Taken row then t
  else {
    rows := t.rows ++ [row]
    ids := nodup_concat t.ids fun hm => h (.inl hm)
    digests := nodup_concat t.digests fun hm => h (.inr (.inl hm))
    paths := nodup_concat (f := fun r : MediaRow => noCase r.relativePath) t.paths
      fun hm => h (.inr (.inr hm)) }

/-- `UPDATE .. SET status = 'permanent' WHERE id = ? AND status = 'temporary'`. -/
def promote (id : String) (t : MediaTable) : MediaTable :=
  let f : MediaRow → MediaRow := fun r => if r.id = id then { r with status := .permanent } else r
  have hf {β : Type} (g : MediaRow → β) (hg : ∀ r, g (f r) = g r) :
      (t.rows.map f).map g = t.rows.map g := by
    rw [List.map_map]
    exact List.map_congr_left fun r _ => hg r
  have hid (r : MediaRow) : (f r).id = r.id ∧ (f r).sha256 = r.sha256 ∧
      (f r).relativePath = r.relativePath := by
    dsimp only [f]
    split <;> exact ⟨rfl, rfl, rfl⟩
  { rows := t.rows.map f
    ids := by rw [hf _ fun r => (hid r).1]; exact t.ids
    digests := by rw [hf _ fun r => (hid r).2.1]; exact t.digests
    paths := by
      rw [hf (fun r : MediaRow => noCase r.relativePath) fun r => congrArg noCase (hid r).2.2]
      exact t.paths }

lemma bySha_eq_some {sha256 : String} {t : MediaTable} {row : MediaRow} :
    t.bySha sha256 = some row ↔ row ∈ t.rows ∧ row.sha256 = sha256 := by
  constructor
  · intro h
    exact ⟨List.mem_of_find?_eq_some h, by simpa using List.find?_some h⟩
  · rintro ⟨hmem, rfl⟩
    cases hfind : t.bySha row.sha256 with
    | none => exact absurd (List.find?_eq_none.1 hfind row hmem) (by simp)
    | some other =>
      have hsha : other.sha256 = row.sha256 := by simpa using List.find?_some hfind
      rw [List.inj_on_of_nodup_map t.digests (List.mem_of_find?_eq_some hfind) hmem hsha]

lemma bySha_eq_none {sha256 : String} {t : MediaTable} :
    t.bySha sha256 = none ↔ ∀ row ∈ t.rows, row.sha256 ≠ sha256 := by
  simp [bySha, List.find?_eq_none]

/-- After the insertion the digest has the new row, or the row was refused. -/
lemma bySha_insertOrIgnore {row : MediaRow} {t : MediaTable} (h : t.bySha row.sha256 = none) :
    (t.insertOrIgnore row).bySha row.sha256 = if t.Taken row then none else some row := by
  unfold insertOrIgnore
  split
  · exact h
  · exact bySha_eq_some.2 ⟨by simp, rfl⟩

lemma not_taken_empty (row : MediaRow) : ¬empty.Taken row := by
  simp [Taken, empty]

/-- The first row. -/
lemma bySha_first (row : MediaRow) : (empty.insertOrIgnore row).bySha row.sha256 = some row := by
  rw [bySha_insertOrIgnore rfl, if_neg (not_taken_empty row)]

lemma bySha_promote {id sha256 : String} {t : MediaTable} :
    (t.promote id).bySha sha256 = (t.bySha sha256).map fun r =>
      if r.id = id then { r with status := .permanent } else r := by
  unfold bySha promote
  dsimp only
  rw [List.find?_map]
  congr 2
  funext r
  dsimp only [Function.comp]
  split <;> rfl

end MediaTable

/-! ### The row of a manifest entry -/

/-- The path of a file in the library, below its root. -/
def relPath (sha256 sanitized : String) : String :=
  "library/" ++ String.ofList (sha256.toList.take 2) ++ "/" ++
    String.ofList ((sha256.toList.drop 2).take 2) ++ "/" ++ sha256 ++ "/" ++ sanitized

lemma relPath_toList (sha256 name : String) : (relPath sha256 name).toList =
    ['/'].intercalate ["library".toList, sha256.toList.take 2, (sha256.toList.drop 2).take 2,
      sha256.toList, name.toList] := by
  unfold relPath
  simp [List.intercalate]

lemma relPath_right_inj {sha256 name name' : String} :
    relPath sha256 name = relPath sha256 name' ↔ name = name' :=
  String.append_right_inj _

/-- The row that is made for an entry. -/
def rowOf (entry : MediaEntry) (sanitized : String) : MediaRow where
  id := entry.id
  sha256 := entry.sha256
  blake3 := entry.blake3
  sizeBytes := entry.sizeBytes
  filename := sanitized
  relativePath := relPath entry.sha256 sanitized
  status := .temporary

/-- `upsert_media_item_from_manifest`: the id of the row of the digest, which is made if there is
none. -/
def upsertMediaItemFromManifest (nfc : List Char → List Char) (entry : MediaEntry)
    (t : MediaTable) :
    Except String String × MediaTable :=
  match t.bySha entry.sha256 with
  | some row => (.ok row.id, t)
  | none =>
    match sanitize nfc entry.filename with
    | .error e => (.error ("filename sanitize: " ++ e.display), t)
    | .ok sanitized =>
      let t := t.insertOrIgnore (rowOf entry sanitized)
      match t.bySha entry.sha256 with
      | some row => (.ok row.id, t)
      | none => (.error ("media_items SELECT post-INSERT: no rows returned by a query that " ++
          "expected to return at least one row"), t)

/-- **What the row of an entry is afterwards**: the one that was there, or the one of the entry. -/
theorem upsert_eq_ok {nfc : List Char → List Char} {entry : MediaEntry} {t t' : MediaTable}
    {id : String} (h : upsertMediaItemFromManifest nfc entry t = (.ok id, t')) :
    ∃ row, t'.bySha entry.sha256 = some row ∧ row.id = id ∧
      (t.bySha entry.sha256 = some row ∧ t' = t ∨
        t.bySha entry.sha256 = none ∧ ∃ sanitized, sanitize nfc entry.filename = .ok sanitized ∧
          row = rowOf entry sanitized) := by
  unfold upsertMediaItemFromManifest at h
  cases hrow : t.bySha entry.sha256 with
  | some row =>
    simp only [hrow] at h
    obtain ⟨hid, rfl⟩ := Prod.mk.inj h
    exact ⟨row, hrow, Except.ok.inj hid, .inl ⟨rfl, rfl⟩⟩
  | none =>
    simp only [hrow] at h
    cases hname : sanitize nfc entry.filename with
    | error e => simp [hname] at h
    | ok sanitized =>
      have hnone : t.bySha (rowOf entry sanitized).sha256 = none := hrow
      have hins : (t.insertOrIgnore (rowOf entry sanitized)).bySha entry.sha256 =
          if t.Taken (rowOf entry sanitized) then none else some (rowOf entry sanitized) :=
        MediaTable.bySha_insertOrIgnore hnone
      simp only [hname, hins] at h
      split at h
      · rename_i row heq
        obtain ⟨hid, rfl⟩ := Prod.mk.inj h
        rw [hins]
        refine ⟨row, heq, Except.ok.inj hid, .inr ⟨rfl, sanitized, rfl, ?_⟩⟩
        split at heq
        · cases heq
        · exact (Option.some.inj heq).symm
      · cases (Prod.mk.inj h).1

end Locast.Library
