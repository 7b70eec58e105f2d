import Locast.Library.LibraryPath
import Locast.Library.Reconcile
import Mathlib.Algebra.Order.BigOperators.Group.List

/-!
# What a scan promises (`library/scan.rs`)

A rescan of an unchanged library is to change nothing, and every content is to be counted once.  One
content under two names is enough to break both: each of its files takes the row of the digest from
the other.
-/

namespace Locast.Library

open Locast.Lib

variable {crates : ScanCrates} {now : ℤ} {c : Found} {path : List OsName} {bytes : List UInt8}

/-! ### Canonical paths -/

lemma noCase_relPath {sha name : String} (hsha : validateSha sha = .ok ()) :
    noCase (relPath sha name) = directory sha.toList ++ '/' :: noCase name := by
  have hall : directoryChars.all (fun c => decide (c.toLower = c)) = true := by decide
  have hlower : ∀ c ∈ directory sha.toList, c.toLower = c := fun c hc =>
    of_decide_eq_true (List.all_eq_true.1 hall c (mem_directory (hex_of_validateSha hsha).2 hc))
  have hdir : (directory sha.toList).map Char.toLower = directory sha.toList := by
    conv_rhs => rw [← List.map_id (directory sha.toList)]
    exact List.map_congr_left hlower
  rw [noCase, relPath_components, intercalate_components, List.map_append, hdir, List.map_cons]
  rfl

/-- A path tells the digest, whatever the case of its letters. -/
lemma sha_of_relPath {sha sha' name name' : String} (hsha : validateSha sha = .ok ())
    (hsha' : validateSha sha' = .ok ())
    (h : noCase (relPath sha name) = noCase (relPath sha' name')) :
    sha = sha' := by
  have hlen {d : String} (hd : validateSha d = .ok ()) : d.toList.length = 64 :=
    length_of_hex (hex_of_validateSha hd).1 (hex_of_validateSha hd).2
  have hsame : sha.toList.length = sha'.toList.length := (hlen hsha).trans (hlen hsha').symm
  rw [noCase_relPath hsha, noCase_relPath hsha'] at h
  have hdirs : directory sha.toList = directory sha'.toList :=
    (List.append_inj h (by simp [directory, hsame])).1
  have hfront (l : List Char) : directory l =
      (libraryName ++ '/' :: (l.take 2 ++ '/' :: ((l.drop 2).take 2 ++ ['/']))) ++ l := by
    simp [directory]
  rw [hfront, hfront sha'.toList] at hdirs
  exact String.toList_inj.1 (List.append_inj' hdirs hsame).2

lemma relPath_inj {sha sha' name name' : String} (hsha : validateSha sha = .ok ())
    (hsha' : validateSha sha' = .ok ()) (h : relPath sha name = relPath sha' name') :
    sha = sha' ∧ name = name' := by
  obtain rfl := sha_of_relPath hsha hsha' (congrArg noCase h)
  refine ⟨rfl, ?_⟩
  have hlist := congrArg String.toList h
  rw [relPath_components, relPath_components, intercalate_components, intercalate_components]
    at hlist
  injection List.append_cancel_left hlist with _ hname
  exact String.toList_inj.1 hname

lemma contentAddressedPath_eq_some {sha name : String}
    (h : contentAddressedPath sha name = some path) :
    validateSha sha = .ok () ∧ path = [.utf8 (String.ofList (sha.toList.take 2)),
      .utf8 (String.ofList ((sha.toList.drop 2).take 2)), .utf8 sha, .utf8 name] := by
  unfold contentAddressedPath at h
  split at h
  · cases h
  · rename_i hsha
    split at h
    · cases h
    · exact ⟨hsha, (Option.some.inj h).symm⟩

/-- **What a file at its canonical path is.** -/
lemma found_spec (h : found crates path bytes = some c) :
    contentAddressedPath c.sha256 c.filename = some path ∧
      c.relativePath = relPath c.sha256 c.filename ∧ c.size = bytes.length := by
  unfold found at h
  split at h
  · cases h
  · split at h
    · cases h
    · rename_i filename _
      split at h
      · cases h
      · rename_i expectedPath hpath
        split at h
        · cases h
        · rename_i hsame
          rw [not_not] at hsame
          obtain rfl := Option.some.inj h
          exact ⟨hsame ▸ hpath, rfl, rfl⟩

/-! ### The files of a tree -/

/-- The content of an entry, if it is a file and not empty. -/
def contentOf (entry : List OsName × DirEntry) : Option (List OsName × List UInt8) :=
  match entry.2 with
  | .other => none
  | .file bytes => if bytes.length = 0 then none else some (entry.1, bytes)

/-- The files that are not empty, in the order of the walk. -/
def files (crates : ScanCrates) (tree : LibraryTree) : List (List OsName × List UInt8) :=
  (tree.walk crates).filterMap contentOf

/-- Those of some files that are at their canonical paths. -/
def canonicalOf (crates : ScanCrates) (fs : List (List OsName × List UInt8)) : List Found :=
  fs.filterMap fun f => found crates f.1 f.2

/-- The canonical files of a tree, in the order of the walk. -/
def canonical (crates : ScanCrates) (tree : LibraryTree) : List Found :=
  canonicalOf crates (files crates tree)

lemma contentOf_eq_some {entry : List OsName × DirEntry} {f : List OsName × List UInt8}
    (h : contentOf entry = some f) : entry.1 = f.1 ∧ 0 < f.2.length := by
  unfold contentOf at h
  split at h
  · cases h
  · split at h
    · cases h
    · rename_i hne
      obtain rfl := Option.some.inj h
      exact ⟨rfl, Nat.pos_of_ne_zero hne⟩

lemma nodup_files (crates : ScanCrates) (tree : LibraryTree) :
    ((files crates tree).map (·.1)).Nodup := by
  have hpaths := List.pairwise_map.1 (Dir.nodup_walk (OsName.le crates) tree.distinct)
  refine List.pairwise_map.2 (hpaths.filterMap contentOf fun e e' hne f hf f' hf' heq => hne ?_)
  rw [(contentOf_eq_some hf).1, heq, (contentOf_eq_some hf').1]

/-- **The canonical files of a tree** have paths of their own. -/
lemma tidy_canonical (crates : ScanCrates) (tree : LibraryTree) : Tidy (canonical crates tree) where
  paths := by
    have hpaths := List.pairwise_map.1 (nodup_files crates tree)
    refine List.pairwise_map.2 (hpaths.filterMap (fun f => found crates f.1 f.2) ?_)
    intro f f' hne c hc c' hc' heq
    obtain ⟨hpath, hrel, -⟩ := found_spec hc
    obtain ⟨hpath', hrel', -⟩ := found_spec hc'
    rw [hrel, hrel'] at heq
    obtain ⟨hsha, hname⟩ := relPath_inj (contentAddressedPath_eq_some hpath).1
      (contentAddressedPath_eq_some hpath').1 heq
    rw [hsha, hname] at hpath
    exact hne (Option.some.inj (hpath.symm.trans hpath'))
  own := by
    intro c hc c' hc' heq
    obtain ⟨f, -, hf⟩ := List.mem_filterMap.1 hc
    obtain ⟨f', -, hf'⟩ := List.mem_filterMap.1 hc'
    obtain ⟨hpath, hrel, -⟩ := found_spec hf
    obtain ⟨hpath', hrel', -⟩ := found_spec hf'
    rw [hrel, hrel'] at heq
    exact sha_of_relPath (contentAddressedPath_eq_some hpath).1
      (contentAddressedPath_eq_some hpath').1 heq
  sizes := by
    intro c hc
    obtain ⟨f, hf, hfound⟩ := List.mem_filterMap.1 hc
    obtain ⟨e, -, he⟩ := List.mem_filterMap.1 hf
    rw [(found_spec hfound).2.2]
    exact (contentOf_eq_some he).2

/-! ### The walk -/

/-- The row of an orphan was made. -/
def Outcome.isOrphan : Outcome → Bool
  | .orphanInsert _ => true
  | _ => false

/-- What one file of some size adds. -/
def Walk.record (w : Walk) (size : ℕ) (o : Outcome) (items : MediaItems) : Walk where
  items
  visited := w.visited ++ o.rel.toList
  result := {
    filesScanned := w.result.filesScanned + 1
    filesUpserted := w.result.filesUpserted + if o.upserts then 1 else 0
    filesOrphansDiscovered := w.result.filesOrphansDiscovered + if o.isOrphan then 1 else 0
    filesMissing := w.result.filesMissing
    filesFailed := w.result.filesFailed + if o.rel.isNone then 1 else 0
    bytesTotal := w.result.bytesTotal + if o.rel.isSome then size else 0 }

/-- The walk at one file that is not empty. -/
def visitFile (crates : ScanCrates) (now : ℤ) (w : Walk) (f : List OsName × List UInt8) : Walk :=
  w.record f.2.length (processFile crates now f.1 f.2 w.items).1
    (processFile crates now f.1 f.2 w.items).2

lemma visit_eq (crates : ScanCrates) (now : ℤ) (w : Walk) (entry : List OsName × DirEntry) :
    visit crates now w entry = ((contentOf entry).map (visitFile crates now w)).getD w := by
  obtain ⟨path, entry⟩ := entry
  cases entry with
  | other => rfl
  | file bytes =>
    unfold visit contentOf
    dsimp only
    split
    · rfl
    · unfold visitFile
      dsimp only [Option.map_some, Option.getD_some]
      obtain ⟨o, items⟩ := processFile crates now path bytes w.items
      cases o with
      | failed => simp [Walk.record, Outcome.rel, Outcome.upserts, Outcome.isOrphan]
      | changed rel | unchanged rel | orphanInsert rel => rfl

/-- A walk comes to the files that are not empty. -/
lemma foldl_visit (crates : ScanCrates) (now : ℤ) (entries : List (List OsName × DirEntry))
    (w : Walk) :
    entries.foldl (visit crates now) w = (entries.filterMap contentOf).foldl
      (visitFile crates now) w := by
  induction entries generalizing w with
  | nil => rfl
  | cons entry entries ih =>
    rw [List.foldl_cons, visit_eq, ih]
    cases hcontent : contentOf entry with
    | none => rw [List.filterMap_cons_none hcontent]; rfl
    | some f => rw [List.filterMap_cons_some hcontent]; rfl

/-- The outcomes of some files, one after the other. -/
def outcomes (crates : ScanCrates) (now : ℤ) :
    List (List OsName × List UInt8) → MediaItems → List Outcome
  | [], _ => []
  | f :: fs, items =>
    let p := processFile crates now f.1 f.2 items
    p.1 :: outcomes crates now fs p.2

lemma length_outcomes (fs : List (List OsName × List UInt8)) (items : MediaItems) :
    (outcomes crates now fs items).length = fs.length := by
  induction fs generalizing items with
  | nil => rfl
  | cons f fs ih => exact congrArg (· + 1) (ih _)

/-- **Each outcome is counted** in its place. -/
structure Counts (outs : List Outcome) (r r' : ScanResult) : Prop where
  scanned : r'.filesScanned = r.filesScanned + outs.length
  upserted : r'.filesUpserted = r.filesUpserted + outs.countP (·.upserts)
  orphans : r'.filesOrphansDiscovered = r.filesOrphansDiscovered + outs.countP (·.isOrphan)
  failed : r'.filesFailed = r.filesFailed + outs.countP (·.rel.isNone)

lemma counts_foldl (fs : List (List OsName × List UInt8)) (w : Walk) :
    Counts (outcomes crates now fs w.items) w.result
      (fs.foldl (visitFile crates now) w).result := by
  induction fs generalizing w with
  | nil => exact ⟨rfl, rfl, rfl, rfl⟩
  | cons f fs ih =>
    have hrest := ih (visitFile crates now w f)
    rw [List.foldl_cons, outcomes]
    refine ⟨hrest.scanned.trans ?_, hrest.upserted.trans ?_, hrest.orphans.trans ?_,
      hrest.failed.trans ?_⟩
    · rw [List.length_cons]
      exact Nat.add_right_comm _ _ _
    · rw [List.countP_cons]
      exact (Nat.add_right_comm _ _ _).trans (Nat.add_assoc _ _ _)
    · rw [List.countP_cons]
      exact (Nat.add_right_comm _ _ _).trans (Nat.add_assoc _ _ _)
    · rw [List.countP_cons]
      exact (Nat.add_right_comm _ _ _).trans (Nat.add_assoc _ _ _)

/-- **The canonical files decide** over the rows, the visited paths and the bytes. -/
structure Walked (crates : ScanCrates) (cs : List Found) (w w' : Walk) : Prop where
  table : w'.items.table = after crates cs w.items.table
  visited : w'.visited = w.visited ++ visits crates cs w.items.table
  upserted : w'.result.filesUpserted = w.result.filesUpserted + upserts crates cs w.items.table
  bytes : w'.result.bytesTotal = w.result.bytesTotal + counted crates cs w.items.table
  quiet : upserts crates cs w.items.table = 0 → w'.items = w.items

lemma walked_foldl (fs : List (List OsName × List UInt8)) (w : Walk) :
    Walked crates (canonicalOf crates fs) w (fs.foldl (visitFile crates now) w) := by
  induction fs generalizing w with
  | nil => exact ⟨rfl, (List.append_nil _).symm, rfl, rfl, fun _ => rfl⟩
  | cons f fs ih =>
    have hrest := ih (visitFile crates now w f)
    rw [List.foldl_cons]
    cases hfound : found crates f.1 f.2 with
    | none =>
      have hfailed : visitFile crates now w f = w.record f.2.length .failed w.items := by
        rw [visitFile, processFile, hfound]
      have hnone : canonicalOf crates (f :: fs) = canonicalOf crates fs :=
        List.filterMap_cons_none hfound
      rw [hfailed] at hrest ⊢
      rw [hnone]
      refine ⟨hrest.table, hrest.visited.trans ?_, hrest.upserted, hrest.bytes, hrest.quiet⟩
      exact congrArg (· ++ _) (List.append_nil _)
    | some c =>
      have hcons : canonicalOf crates (f :: fs) = c :: canonicalOf crates fs :=
        List.filterMap_cons_some hfound
      have hprocess : processFile crates now f.1 f.2 w.items = reconcile crates now c w.items := by
        rw [processFile, hfound]
      obtain ⟨hout, htable, hquiet⟩ := reconcile_eq crates now c w.items
      have hvisit : visitFile crates now w f = w.record c.size (outcome crates c w.items.table)
          (reconcile crates now c w.items).2 := by
        rw [visitFile, hprocess, hout, (found_spec hfound).2.2]
      have hitems : (visitFile crates now w f).items.table = next crates c w.items.table := by
        rw [hvisit]
        exact htable
      rw [hcons]
      refine ⟨hrest.table.trans ?_, hrest.visited.trans ?_, hrest.upserted.trans ?_,
        hrest.bytes.trans ?_, fun hzero => ?_⟩
      · rw [hitems, after]
      · rw [hitems, hvisit, visits, ← List.append_assoc]
        rfl
      · rw [hitems, hvisit, upserts, ← Nat.add_assoc]
        rfl
      · rw [hitems, hvisit, counted, ← Nat.add_assoc]
        rfl
      · obtain ⟨hfirst, hlater⟩ := Nat.add_eq_zero_iff.1 hzero
        have hsame : (outcome crates c w.items.table).upserts = false := by
          by_contra hne
          rw [Bool.not_eq_false] at hne
          rw [hne] at hfirst
          cases hfirst
        rw [hrest.quiet (by rw [hitems]; exact hlater), hvisit]
        exact hquiet hsame

/-! ### The scan -/

variable {tree : LibraryTree} {items : MediaItems}

/-- The scan before its walk. -/
def Walk.start (items : MediaItems) : Walk := ⟨⟨0, 0, 0, 0, 0, 0⟩, [], items⟩

/-- **What a scan makes of the rows and of its counts.** -/
structure Scanned (crates : ScanCrates) (now : ℤ) (tree : LibraryTree)
    (items : MediaItems) : Prop where
  table : (scan crates now tree items).2.table = after crates (canonical crates tree) items.table
  upserted : (scan crates now tree items).1.filesUpserted =
    upserts crates (canonical crates tree) items.table
  bytes : (scan crates now tree items).1.bytesTotal = counted crates
    (canonical crates tree) items.table
  missing : (scan crates now tree items).1.filesMissing =
    (missingIds (visits crates (canonical crates tree) items.table)
      (scan crates now tree items).2.table).length
  counts : Counts (outcomes crates now (files crates tree) items) (Walk.start items).result
    (scan crates now tree items).1
  seen : upserts crates (canonical crates tree) items.table = 0 →
    ∀ id, id ∉ missingIds (visits crates (canonical crates tree) items.table)
      (scan crates now tree items).2.table →
      (scan crates now tree items).2.lastSeenAt id = items.lastSeenAt id

lemma scanned (crates : ScanCrates) (now : ℤ) (tree : LibraryTree) (items : MediaItems) :
    Scanned crates now tree items := by
  have hwalk : walkLibrary crates now tree (Walk.start items) =
      (files crates tree).foldl (visitFile crates now) (Walk.start items) := foldl_visit ..
  have hwalked : Walked crates (canonical crates tree) (Walk.start items)
      (walkLibrary crates now tree (Walk.start items)) := hwalk ▸ walked_foldl _ _
  have hcounts : Counts (outcomes crates now (files crates tree) items) (Walk.start items).result
      (walkLibrary crates now tree (Walk.start items)).result :=
    hwalk ▸ counts_foldl (files crates tree) (Walk.start items)
  have hvisited : (walkLibrary crates now tree (Walk.start items)).visited =
      visits crates (canonical crates tree) items.table := hwalked.visited
  refine ⟨hwalked.table, hwalked.upserted.trans (Nat.zero_add _),
    hwalked.bytes.trans (Nat.zero_add _), congrArg
      (fun visited => (missingIds visited _).length) hvisited,
    ⟨hcounts.scanned, hcounts.upserted, hcounts.orphans, hcounts.failed⟩, fun hquiet id hid => ?_⟩
  have hitems : (walkLibrary crates now tree (Walk.start items)).items = items :=
    hwalked.quiet hquiet
  rw [← hvisited] at hid
  exact (if_neg hid).trans (congrFun (congrArg MediaItems.lastSeenAt hitems) id)

/-- **What a scan promises**: of the rows, of its counts, and of a second scan of the same tree. -/
structure Reconciles (crates : ScanCrates) (now now' : ℤ) (tree : LibraryTree)
    (items : MediaItems) :
    Prop where
  rows : ∀ c ∈ canonical crates tree, ∃ r,
    (scan crates now tree items).2.table.rows.filter (fun q => q.sha256 = c.sha256) = [r] ∧
      Names (canonical crates tree) r
  others : ∀ r : MediaRow, (∀ c ∈ canonical crates tree, c.sha256 ≠ r.sha256) →
    (r ∈ (scan crates now tree items).2.table.rows ↔ r ∈ items.table.rows)
  missing : (scan crates now tree items).1.filesMissing =
    ((scan crates now tree items).2.table.rows.filter fun r =>
      ¬Names (canonical crates tree) r).length
  bytes : (scan crates now tree items).1.bytesTotal =
    ((scan crates now tree items).2.table.rows.map (storedBytes (canonical crates tree))).sum
  /-- one outcome for each file, and each outcome in its count -/
  categories : (outcomes crates now (files crates tree) items).length = (files crates tree).length ∧
    Counts (outcomes crates now (files crates tree) items) (Walk.start items).result
      (scan crates now tree items).1
  again : (scan crates now' tree (scan crates now tree items).2).1.filesUpserted = 0
  still : (scan crates now' tree (scan crates now tree items).2).2.table =
    (scan crates now tree items).2.table
  seen : ∀ id, (scan crates now' tree (scan crates now tree items).2).2.lastSeenAt id ≠
    (scan crates now tree items).2.lastSeenAt id →
      ∃ r ∈ (scan crates now tree items).2.table.rows, r.id = id ∧ ¬Names (canonical crates tree) r

/-- Nothing is said of rows without files. -/
lemma others_scan (crates : ScanCrates) (now : ℤ) (tree : LibraryTree) (items : MediaItems)
    {r : MediaRow} (h : ∀ c ∈ canonical crates tree, c.sha256 ≠ r.sha256) :
    r ∈ (scan crates now tree items).2.table.rows ↔ r ∈ items.table.rows := by
  have hbehind : Behind (canonical crates tree) items.table
      (after crates (canonical crates tree) items.table) :=
        (Behind.refl _ _).after crates fun c hc => hc
  rw [(scanned crates now tree items).table, MediaTable.mem_rows_iff, MediaTable.mem_rows_iff,
    hbehind _ h]

/-- A row that names a file is seen by a scan that changes nothing. -/
lemma visited_of_names {cs : List Found} {t : MediaTable} (hquiet : upserts crates cs t = 0)
    {r : MediaRow} (hr : r ∈ t.rows) (hnames : Names cs r) :
    r.relativePath ∈ visits crates cs t := by
  obtain ⟨c, hc, hsha, hpath⟩ := hnames
  have hrow : t.bySha c.sha256 = some r := hsha ▸ MediaTable.mem_rows_iff.1 hr
  have hfree : ¬Held c t := fun hheld => hheld.not_at hrow (congrArg noCase hpath.symm)
  exact mem_visits_of_quiet (quiet_of_upserts hquiet).2 hc
    (hpath ▸ (reconcile_free crates hfree).rel)

/-- **A scan keeps its promises exactly when** each digest of a canonical file has one canonical
file to go by, whose path is free when the walk comes to it, and no other canonical file of the
digest is met before the digest has a row. -/
theorem scan_reconciles (crates : ScanCrates) (now now' : ℤ) (tree : LibraryTree)
    (items : MediaItems) :
    Reconciles crates now now' tree items ↔
      Leads (canonical crates tree) items.table ∧ Known (canonical crates tree) items.table := by
  have hfirst := scanned crates now tree items
  have hsecond := scanned crates now' tree (scan crates now tree items).2
  have htidy := tidy_canonical crates tree
  constructor
  · intro h
    refine (settles_iff crates htidy items.table).1 ⟨fun c hc => ?_, ?_, ?_⟩
    · obtain ⟨r, hfilter, hnames⟩ := h.rows c hc
      have hmem := List.mem_filter.1 (hfilter ▸ List.mem_singleton_self r)
      rw [hfirst.table] at hmem
      exact ⟨r, MediaTable.bySha_eq_some.2 ⟨hmem.1, of_decide_eq_true hmem.2⟩, hnames⟩
    · rw [← hfirst.bytes, ← hfirst.table]
      exact h.bytes
    · rw [← hfirst.table, ← hsecond.upserted]
      exact h.again
  · rintro ⟨hlead, hknown⟩
    obtain ⟨hrows, hbytes, hagain⟩ := (settles_iff crates htidy items.table).2 ⟨hlead, hknown⟩
    have hquiet : upserts crates (canonical crates tree) (scan crates now tree items).2.table = 0 :=
      hfirst.table ▸ hagain
    have hstill : (scan crates now' tree (scan crates now tree items).2).2.table =
        (scan crates now tree items).2.table := hsecond.table.trans (quiet_of_upserts hquiet).1
    refine ⟨fun c hc => ?_, fun r hr => others_scan crates now tree items hr, ?_, ?_,
      ⟨length_outcomes _ _, hfirst.counts⟩, hsecond.upserted.trans hquiet, hstill, fun id hid => ?_⟩
    · obtain ⟨r, hr, hnames⟩ := hrows c hc
      rw [← hfirst.table] at hr
      have hsha := (MediaTable.bySha_eq_some.1 hr).2
      rw [← hsha] at hr
      exact ⟨r, hsha ▸ MediaTable.filter_sha hr, hnames⟩
    · rw [hfirst.missing, missingIds, List.length_map]
      refine congrArg List.length (List.filter_congr fun r hr => ?_)
      rw [hfirst.table] at hr
      exact decide_eq_decide.2 (not_congr (visited_iff htidy hlead hknown hr))
    · rw [hfirst.bytes, hfirst.table]
      exact hbytes
    · have hmissing := not_not.1 fun hno => hid (hsecond.seen hquiet id hno)
      obtain ⟨r, hr, hrid⟩ := List.mem_map.1 hmissing
      obtain ⟨hmem, hunseen⟩ := List.mem_filter.1 hr
      rw [hstill] at hmem
      exact ⟨r, hmem, hrid, fun hnames => of_decide_eq_true hunseen
        (visited_of_names hquiet hmem hnames)⟩

/-! ### One content under two names -/

/-- The digests of the content `a`, and an id. -/
def letterCrates : ScanCrates where
  sha256Hex _ := "ca978112ca1bbdcafac231b39a23dc4da786eff8147c4e72b9807785afee48bb"
  hex _ := validateSha_ofList (by decide) (by decide)
  blake3Hex _ := "17762fddd969a453925d65717ac3eea21320b66b54342fde15128d6caf21215f"
  nfc := id
  toStringLossy _ := ""
  newUuid ids :=
    if "7d44b88c-4199-4bad-97dc-d78268e01398" ∉ ids then "7d44b88c-4199-4bad-97dc-d78268e01398"
    else String.ofList (List.replicate ((ids.map String.length).sum + 1) '0')
  fresh ids := by
    split
    · assumption
    · intro hmem
      have hle := List.single_le_sum (fun _ _ => Nat.zero_le _) _
        (List.mem_map_of_mem (f := String.length) hmem)
      rw [String.length_ofList, List.length_replicate] at hle
      omega

/-- `a` at both of its canonical paths with the names `a.mkv` and `b.mkv`. -/
def twoNames : LibraryTree where
  dir := .sub (.utf8 "ca") (.sub (.utf8 "97") (.sub
    (.utf8 "ca978112ca1bbdcafac231b39a23dc4da786eff8147c4e72b9807785afee48bb")
      (.leaf (.utf8 "a.mkv") (.file [97]) (.leaf (.utf8 "b.mkv") (.file [97]) .nil)) .nil) .nil)
        .nil
  distinct := by simp [Dir.Distinct, Dir.names]

/-- **One content under two names**: every scan upserts both files and counts the content twice. -/
theorem not_scan_reconciles :
    (scan letterCrates 1000 twoNames ⟨.empty, fun _ => 0⟩).1 = ⟨2, 2, 1, 0, 0, 2⟩ ∧
    (scan letterCrates 2000 twoNames (scan letterCrates 1000 twoNames ⟨.empty, fun _ => 0⟩).2).1 =
      ⟨2, 2, 0, 0, 0, 2⟩ ∧
    ¬Reconciles letterCrates 1000 2000 twoNames ⟨.empty, fun _ => 0⟩ := by
  have hfirst : (scan letterCrates 1000 twoNames ⟨.empty, fun _ => 0⟩).1 = ⟨2, 2, 1, 0, 0, 2⟩ := by
    decide
  have hsecond : (scan letterCrates 2000 twoNames
      (scan letterCrates 1000 twoNames ⟨.empty, fun _ => 0⟩).2).1 = ⟨2, 2, 0, 0, 0, 2⟩ := by
    decide
  refine ⟨hfirst, hsecond, fun h => ?_⟩
  have hagain := h.again
  rw [hsecond] at hagain
  cases hagain

end Locast.Library
