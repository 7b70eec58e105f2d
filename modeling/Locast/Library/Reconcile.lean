import Locast.Library.Scan

/-!
# When a scan reconciles

A list of files at their canonical paths is reconciled with the rows one by one.  A path that a row
of another digest has cannot be taken (`reconcile_held`); any other is, and the row of the digest is
there afterwards (`reconcile_free`).  A row of a digest without files never moves, so a path that it
has is `Occupied` for good.  From this it follows exactly when a scan keeps its promises
(`settles_iff`).
-/

namespace Locast.Library

open Locast.Lib

variable {crates : ScanCrates} {now : ℤ} {c c' : Found} {t t' : MediaTable} {items : MediaItems}

/-! ### Statements -/

namespace MediaTable

/-- The row of a digest, among the rows. -/
lemma mem_rows_iff {r : MediaRow} : r ∈ t.rows ↔ t.bySha r.sha256 = some r :=
  ⟨fun h => bySha_eq_some.2 ⟨h, rfl⟩, fun h => (bySha_eq_some.1 h).1⟩

/-- Two rows with one path are one row. -/
lemma eq_of_path {r r' : MediaRow} (hr : r ∈ t.rows) (hr' : r' ∈ t.rows)
    (h : noCase r.relativePath = noCase r'.relativePath) : r = r' :=
  List.inj_on_of_nodup_map t.paths hr hr' h

lemma filter_sha {r : MediaRow} (h : t.bySha r.sha256 = some r) :
    t.rows.filter (fun q => q.sha256 = r.sha256) = [r] := by
  have hmem := mem_rows_iff.2 h
  have hnodup : (t.rows.filter fun q => q.sha256 = r.sha256).Nodup := t.digests.of_map.filter _
  refine List.perm_singleton.1 ((List.perm_ext_iff_of_nodup hnodup (List.nodup_singleton r)).2
    fun q => ?_)
  rw [List.mem_filter, List.mem_singleton, decide_eq_true_eq]
  constructor
  · rintro ⟨hq, hsha⟩
    exact List.inj_on_of_nodup_map t.digests hq hmem hsha
  · rintro rfl
    exact ⟨hmem, rfl⟩

lemma rename_eq_none {sha256 filename relativePath : String}
    (h : t.HeldElsewhere sha256 relativePath) : t.rename sha256 filename relativePath = none := by
  rw [rename, dif_pos h]

lemma bySha_rename {sha256 relativePath : String} (filename : String)
    (h : ¬t.HeldElsewhere sha256 relativePath) :
    ∃ t', t.rename sha256 filename relativePath = some t' ∧
      ∀ d, t'.bySha d = (t.bySha d).map (renamed sha256 filename relativePath) := by
  refine ⟨_, dif_neg h, fun d => ?_⟩
  unfold bySha
  dsimp only
  rw [List.find?_map]
  congr 2
  funext r
  simp only [Function.comp, renamed_sha256]

/-- A row of a new digest with a new id is refused exactly when its path is taken. -/
lemma taken_iff {row : MediaRow} (hid : row.id ∉ t.rows.map (·.id))
    (hnone : t.bySha row.sha256 = none) :
    t.Taken row ↔ t.HeldElsewhere row.sha256 row.relativePath := by
  have hsha := bySha_eq_none.1 hnone
  constructor
  · rintro (h | h | h)
    · exact absurd h hid
    · obtain ⟨r, hr, heq⟩ := List.mem_map.1 h
      exact absurd heq (hsha r hr)
    · obtain ⟨r, hr, heq⟩ := List.mem_map.1 h
      exact ⟨r, hr, hsha r hr, heq⟩
  · rintro ⟨r, hr, -, heq⟩
    exact .inr (.inr (List.mem_map.2 ⟨r, hr, heq⟩))

lemma bySha_insert {row : MediaRow} (h : ¬t.Taken row) (hnone : t.bySha row.sha256 = none) :
    ∃ t', t.insert row = some t' ∧ t'.bySha row.sha256 = some row ∧
      ∀ d, d ≠ row.sha256 → t'.bySha d = t.bySha d := by
  refine ⟨_, if_neg h, ?_, fun d hd => ?_⟩
  · rw [bySha_insertOrIgnore hnone, if_neg h]
  · unfold insertOrIgnore
    rw [dif_neg h]
    unfold bySha
    dsimp only
    rw [List.find?_append, List.find?_singleton]
    simp [Ne.symm hd]

end MediaTable

/-! ### One file -/

namespace Outcome

/-- The path that counts as visited. -/
def rel : Outcome → Option String
  | .changed rel | .unchanged rel | .orphanInsert rel => some rel
  | .failed => none

/-- A row was made or changed. -/
def upserts : Outcome → Bool
  | .changed _ | .orphanInsert _ => true
  | _ => false

end Outcome

/-- The outcome for a file does not depend on the times. -/
def outcome (crates : ScanCrates) (c : Found) (t : MediaTable) : Outcome :=
  (reconcile crates 0 c ⟨t, fun _ => 0⟩).1

/-- Nor do the rows afterwards. -/
def next (crates : ScanCrates) (c : Found) (t : MediaTable) : MediaTable :=
  (reconcile crates 0 c ⟨t, fun _ => 0⟩).2.table

lemma reconcile_eq (crates : ScanCrates) (now : ℤ) (c : Found) (items : MediaItems) :
    (reconcile crates now c items).1 = outcome crates c items.table ∧
      (reconcile crates now c items).2.table = next crates c items.table ∧
      ((outcome crates c items.table).upserts = false →
        (reconcile crates now c items).2 = items) := by
  unfold outcome next reconcile
  dsimp only
  cases items.table.bySha c.sha256 with
  | some existing =>
    dsimp only
    split
    · exact ⟨rfl, rfl, fun _ => rfl⟩
    · cases items.table.rename c.sha256 c.filename c.relativePath with
      | some table => exact ⟨rfl, rfl, nofun⟩
      | none => exact ⟨rfl, rfl, fun _ => rfl⟩
  | none =>
    dsimp only
    cases items.table.insert (c.row (crates.newUuid (items.table.rows.map (·.id)))) with
    | some table => exact ⟨rfl, rfl, nofun⟩
    | none => exact ⟨rfl, rfl, fun _ => rfl⟩

/-- The path of a file is that of a row of another digest. -/
def Held (c : Found) (t : MediaTable) : Prop := t.HeldElsewhere c.sha256 c.relativePath

/-- The row of the file's digest is at the file. -/
def AtFile (t : MediaTable) (c : Found) : Prop :=
  ∃ r, t.bySha c.sha256 = some r ∧ r.relativePath = c.relativePath ∧ r.filename = c.filename

/-- A path that is held is held by no other row. -/
lemma Held.not_at (h : Held c t) {r : MediaRow} (hr : t.bySha c.sha256 = some r) :
    noCase r.relativePath ≠ noCase c.relativePath := by
  intro heq
  obtain ⟨q, hq, hsha, hpath⟩ := h
  obtain ⟨hmem, hdigest⟩ := MediaTable.bySha_eq_some.1 hr
  rw [MediaTable.eq_of_path hq hmem (hpath.trans heq.symm)] at hsha
  exact hsha hdigest

/-- **A path that another row has** cannot be taken: nothing changes. -/
lemma reconcile_held (crates : ScanCrates) (h : Held c t) : next crates c t = t ∧
    (outcome crates c t).rel = (if (t.bySha c.sha256).isSome then none else some c.relativePath) ∧
      (outcome crates c t).upserts = false := by
  unfold outcome next reconcile
  dsimp only
  cases hrow : t.bySha c.sha256 with
  | some existing =>
    have hne : ¬(existing.relativePath = c.relativePath ∧ existing.filename = c.filename) :=
      fun heq => h.not_at hrow (congrArg noCase heq.1)
    dsimp only
    rw [if_neg hne, MediaTable.rename_eq_none h]
    exact ⟨rfl, rfl, rfl⟩
  | none =>
    have htaken : t.Taken (c.row (crates.newUuid (t.rows.map (·.id)))) :=
      (MediaTable.taken_iff (crates.fresh _) hrow).2 h
    dsimp only
    rw [MediaTable.insert, if_pos htaken]
    exact ⟨rfl, rfl, rfl⟩

/-- What happens to a file whose path is free. -/
structure Taken (crates : ScanCrates) (c : Found) (t : MediaTable) : Prop where
  rel : (outcome crates c t).rel = some c.relativePath
  atFile : AtFile (next crates c t) c
  others : ∀ d, d ≠ c.sha256 → (next crates c t).bySha d = t.bySha d
  quiet : (outcome crates c t).upserts = false ↔ AtFile t c
  same : (outcome crates c t).upserts = false → next crates c t = t

/-- **A free path is taken.** -/
lemma reconcile_free (crates : ScanCrates) (h : ¬Held c t) : Taken crates c t := by
  cases hrow : t.bySha c.sha256 with
  | some existing =>
    by_cases hsame : existing.relativePath = c.relativePath ∧ existing.filename = c.filename
    · have hnext : reconcile crates 0 c ⟨t, fun _ => 0⟩ =
          (.unchanged c.relativePath, ⟨t, fun _ => 0⟩) := by
        rw [reconcile]
        dsimp only
        rw [hrow]
        exact if_pos hsame
      have hat : AtFile t c := ⟨existing, hrow, hsame⟩
      refine ⟨?_, ?_, fun d _ => ?_, ?_, fun _ => ?_⟩ <;> simp only [outcome, next, hnext]
      · rfl
      · exact hat
      · exact iff_of_true rfl hat
    · obtain ⟨t', hrename, hsha⟩ := MediaTable.bySha_rename c.filename h
      have hnext : reconcile crates 0 c ⟨t, fun _ => 0⟩ =
          (.changed c.relativePath, ⟨t', fun _ => 0⟩) := by
        rw [reconcile]
        dsimp only
        rw [hrow]
        dsimp only
        rw [if_neg hsame, hrename]
      have hdigest := (MediaTable.bySha_eq_some.1 hrow).2
      refine ⟨?_, ?_, fun d hd => ?_, ?_, ?_⟩ <;> simp only [outcome, next, hnext]
      · rfl
      · refine ⟨MediaTable.renamed c.sha256 c.filename c.relativePath existing, ?_, ?_⟩
        · rw [hsha, hrow, Option.map_some]
        · rw [MediaTable.renamed, if_pos hdigest]
          exact ⟨rfl, rfl⟩
      · rw [hsha]
        cases hother : t.bySha d with
        | none => rfl
        | some r =>
          have hne : r.sha256 ≠ c.sha256 := (MediaTable.bySha_eq_some.1 hother).2 ▸ hd
          rw [Option.map_some, MediaTable.renamed, if_neg hne]
      · refine iff_of_false (fun h => by cases h) ?_
        rintro ⟨r, hr, hat⟩
        rw [hrow, Option.some.injEq] at hr
        exact hsame (hr ▸ hat)
      · exact fun h => by cases h
  | none =>
    have hfree : ¬t.Taken (c.row (crates.newUuid (t.rows.map (·.id)))) := fun htaken =>
      h ((MediaTable.taken_iff (crates.fresh _) hrow).1 htaken)
    obtain ⟨t', hinsert, hown, hothers⟩ := MediaTable.bySha_insert hfree hrow
    have hnext : ∃ seen, reconcile crates 0 c ⟨t, fun _ => 0⟩ =
        (.orphanInsert c.relativePath, ⟨t', seen⟩) := by
      refine ⟨Function.update (fun _ => 0) (c.row (crates.newUuid (t.rows.map (·.id)))).id 0, ?_⟩
      rw [reconcile]
      dsimp only
      rw [hrow]
      dsimp only
      rw [hinsert]
    obtain ⟨seen, hnext⟩ := hnext
    refine ⟨?_, ?_, fun d hd => ?_, ?_, ?_⟩ <;> simp only [outcome, next, hnext]
    · rfl
    · exact ⟨_, hown, rfl, rfl⟩
    · exact hothers d hd
    · refine iff_of_false (fun h => by cases h) ?_
      rintro ⟨r, hr, -⟩
      rw [hrow] at hr
      cases hr
    · exact fun h => by cases h

/-- A file touches the row of its digest only. -/
lemma bySha_next (crates : ScanCrates) (c : Found) (t : MediaTable) {d : String}
    (hd : d ≠ c.sha256) :
    (next crates c t).bySha d = t.bySha d := by
  by_cases h : Held c t
  · rw [(reconcile_held crates h).1]
  · exact (reconcile_free crates h).others d hd

/-! ### A list of files -/

/-- The rows after some files. -/
def after (crates : ScanCrates) : List Found → MediaTable → MediaTable
  | [], t => t
  | c :: cs, t => after crates cs (next crates c t)

/-- How many rows are made or changed. -/
def upserts (crates : ScanCrates) : List Found → MediaTable → ℕ
  | [], _ => 0
  | c :: cs, t =>
    (if (outcome crates c t).upserts then 1 else 0) + upserts crates cs (next crates c t)

/-- The bytes of the files that do not fail. -/
def counted (crates : ScanCrates) : List Found → MediaTable → ℕ
  | [], _ => 0
  | c :: cs, t => (if (outcome crates c t).rel.isSome then c.size else 0) +
      counted crates cs (next crates c t)

/-- The paths that count as visited. -/
def visits (crates : ScanCrates) : List Found → MediaTable → List String
  | [], _ => []
  | c :: cs, t => (outcome crates c t).rel.toList ++ visits crates cs (next crates c t)

section Append

variable (crates) (cs ds : List Found) (t)

lemma after_append : after crates (cs ++ ds) t = after crates ds (after crates cs t) := by
  induction cs generalizing t with
  | nil => rfl
  | cons c cs ih => exact ih (next crates c t)

lemma counted_append : counted crates (cs ++ ds) t =
    counted crates cs t + counted crates ds (after crates cs t) := by
  induction cs generalizing t with
  | nil => exact (Nat.zero_add _).symm
  | cons c cs ih =>
    rw [List.cons_append, counted, counted, after, ih, Nat.add_assoc]

lemma visits_append : visits crates (cs ++ ds) t =
    visits crates cs t ++ visits crates ds (after crates cs t) := by
  induction cs generalizing t with
  | nil => rfl
  | cons c cs ih =>
    rw [List.cons_append, visits, visits, after, ih, List.append_assoc]

end Append

/-- A file that is not upserted changes nothing. -/
lemma next_of_quiet (h : (outcome crates c t).upserts = false) : next crates c t = t := by
  by_cases hheld : Held c t
  · exact (reconcile_held crates hheld).1
  · exact (reconcile_free crates hheld).same h

/-- Files without upserts change nothing. -/
lemma quiet_of_upserts {cs : List Found} (h : upserts crates cs t = 0) :
    after crates cs t = t ∧ ∀ c ∈ cs, (outcome crates c t).upserts = false := by
  induction cs with
  | nil => exact ⟨rfl, fun _ hc => by cases hc⟩
  | cons c cs ih =>
    rw [upserts] at h
    have hquiet : (outcome crates c t).upserts = false := by
      by_contra hne
      rw [Bool.not_eq_false] at hne
      rw [hne, if_pos rfl] at h
      omega
    have hsame : next crates c t = t := next_of_quiet hquiet
    rw [hquiet, if_neg Bool.false_ne_true, Nat.zero_add, hsame] at h
    obtain ⟨hafter, hall⟩ := ih h
    refine ⟨by rw [after, hsame, hafter], fun d hd => ?_⟩
    rcases List.mem_cons.1 hd with rfl | hd
    · exact hquiet
    · exact hall d hd

/-- What they are visited by. -/
lemma mem_visits_of_quiet {cs : List Found} {rel : String}
    (h : ∀ c ∈ cs, (outcome crates c t).upserts = false) (hc : c ∈ cs)
    (hrel : (outcome crates c t).rel = some rel) : rel ∈ visits crates cs t := by
  induction cs with
  | nil => cases hc
  | cons d cs ih =>
    rw [visits, next_of_quiet (h d List.mem_cons_self), List.mem_append]
    rcases List.mem_cons.1 hc with rfl | hc
    · left
      rw [hrel]
      exact List.mem_singleton_self rel
    · right
      exact ih (fun e he => h e (List.mem_cons_of_mem d he)) hc

lemma upserts_eq_zero {cs : List Found} (h : ∀ c ∈ cs, next crates c t = t ∧
    (outcome crates c t).upserts = false) : upserts crates cs t = 0 := by
  induction cs with
  | nil => rfl
  | cons c cs ih =>
    obtain ⟨hsame, hquiet⟩ := h c List.mem_cons_self
    rw [upserts, hsame, hquiet, ih fun d hd => h d (List.mem_cons_of_mem c hd)]
    rfl

/-! ### What the rows stay behind -/

/-- **A path is occupied** for good: a row of a digest without files has it. -/
def Occupied (cs : List Found) (t : MediaTable) (c : Found) : Prop :=
  ∃ r ∈ t.rows, (∀ c' ∈ cs, c'.sha256 ≠ r.sha256) ∧ noCase r.relativePath = noCase c.relativePath

instance (cs : List Found) (t : MediaTable) (c : Found) : Decidable (Occupied cs t c) :=
  inferInstanceAs (Decidable (∃ r ∈ t.rows, _))

/-- The files of a walk: no path comes twice, a path belongs to one digest in any case of its
letters, and no file is empty. -/
structure Tidy (cs : List Found) : Prop where
  paths : (cs.map (·.relativePath)).Nodup
  own : ∀ c ∈ cs, ∀ c' ∈ cs, noCase c.relativePath = noCase c'.relativePath → c.sha256 = c'.sha256
  sizes : ∀ c ∈ cs, 0 < c.size

variable {cs : List Found} {start : MediaTable}

lemma Tidy.eq_of_path (h : Tidy cs) (hc : c ∈ cs) (hc' : c' ∈ cs)
    (heq : c.relativePath = c'.relativePath) : c = c' :=
  List.inj_on_of_nodup_map h.paths hc hc' heq

/-- The rows of digests without files are as at the start. -/
def Behind (cs : List Found) (start t : MediaTable) : Prop :=
  ∀ d, (∀ c ∈ cs, c.sha256 ≠ d) → t.bySha d = start.bySha d

namespace Behind

lemma refl (cs : List Found) (start : MediaTable) : Behind cs start start := fun _ _ => rfl

variable (crates) in
lemma next (h : Behind cs start t) (hc : c ∈ cs) : Behind cs start (next crates c t) := by
  intro d hd
  rw [bySha_next crates c t (hd c hc).symm]
  exact h d hd

variable (crates) in
lemma after (h : Behind cs start t) {ds : List Found} (hds : ∀ c ∈ ds, c ∈ cs) :
    Behind cs start (after crates ds t) := by
  induction ds generalizing t with
  | nil => exact h
  | cons c ds ih =>
    exact ih (h.next crates (hds c List.mem_cons_self)) fun d hd =>
      hds d (List.mem_cons_of_mem c hd)

/-- **An occupied path stays held.** -/
lemma held (h : Behind cs start t) (hc : c ∈ cs) (hoccupied : Occupied cs start c) : Held c t := by
  obtain ⟨r, hr, hnone, hpath⟩ := hoccupied
  have hkept : t.bySha r.sha256 = some r := (h r.sha256 hnone).trans (MediaTable.mem_rows_iff.1 hr)
  exact ⟨r, MediaTable.mem_rows_iff.2 hkept, (hnone c hc).symm, hpath⟩

/-- A row whose files are all at occupied paths stays as it is. -/
lemma bySha_after (h : Behind cs start t) {ds : List Found} (hds : ∀ c ∈ ds, c ∈ cs) {d : String}
    (hd : ∀ c ∈ ds, c.sha256 = d → Occupied cs start c) :
    (Library.after crates ds t).bySha d = t.bySha d := by
  induction ds generalizing t with
  | nil => rfl
  | cons c ds ih =>
    have hrest := ih (h.next crates (hds c List.mem_cons_self))
      (fun e he => hds e (List.mem_cons_of_mem c he)) fun e he => hd e (List.mem_cons_of_mem c he)
    rw [Library.after, hrest]
    by_cases hsha : c.sha256 = d
    · have hheld := h.held (hds c List.mem_cons_self) (hd c List.mem_cons_self hsha)
      rw [(reconcile_held crates hheld).1]
    · exact bySha_next crates c t (Ne.symm hsha)

end Behind

/-! ### Files that lead -/

/-- **A digest has one file to go by**: the only one of its files whose path is not occupied.  Its
path is free when the walk comes to it. -/
structure Leads (cs : List Found) (start : MediaTable) : Prop where
  one : ∀ c ∈ cs, ∃ c' ∈ cs, c'.sha256 = c.sha256 ∧ ¬Occupied cs start c'
  only : ∀ c ∈ cs, ∀ c' ∈ cs, c.sha256 = c'.sha256 → ¬Occupied cs start c →
    ¬Occupied cs start c' → c = c'
  moved : ∀ done c todo, cs = done ++ c :: todo → ¬Occupied cs start c →
    ∀ r ∈ start.rows, r.sha256 ≠ c.sha256 → noCase r.relativePath = noCase c.relativePath →
      ∃ c' ∈ done, c'.sha256 = r.sha256 ∧ ¬Occupied cs start c'

/-- A file at an occupied path comes when its digest has a row. -/
def Known (cs : List Found) (start : MediaTable) : Prop :=
  ∀ done c todo, cs = done ++ c :: todo → Occupied cs start c →
    (start.bySha c.sha256).isSome ∨ ∃ c' ∈ done, c'.sha256 = c.sha256 ∧ ¬Occupied cs start c'

section Prefix

variable {done todo : List Found}

lemma mem_of_split (h : cs = done ++ todo) : (∀ c ∈ done, c ∈ cs) ∧ ∀ c ∈ todo, c ∈ cs :=
  h ▸ ⟨fun _ hc => List.mem_append_left _ hc, fun _ hc => List.mem_append_right _ hc⟩

/-- The files that were visited, if they lead, are where their rows are. -/
def Placed (crates : ScanCrates) (cs : List Found) (start : MediaTable)
    (done : List Found) : Prop :=
  ∀ c ∈ done, ¬Occupied cs start c → AtFile (after crates done start) c

/-- **A path is held when the walk comes to it exactly when it is occupied.** -/
lemma held_iff_of_placed (htidy : Tidy cs) (hlead : Leads cs start) (hcs : cs = done ++ c :: todo)
    (hplaced : Placed crates cs start done) :
    Held c (after crates done start) ↔ Occupied cs start c := by
  obtain ⟨hdone, htodo⟩ := mem_of_split hcs
  have hc : c ∈ cs := htodo c List.mem_cons_self
  have hbehind : Behind cs start (after crates done start) :=
    (Behind.refl cs start).after crates hdone
  refine ⟨fun hheld => ?_, hbehind.held hc⟩
  by_contra hfree
  obtain ⟨r, hr, hsha, hpath⟩ := hheld
  have hrow := MediaTable.mem_rows_iff.1 hr
  by_cases hlater : ∃ c' ∈ done, c'.sha256 = r.sha256 ∧ ¬Occupied cs start c'
  · -- the row has gone to a file of its own
    obtain ⟨c', hc', hdigest, hfree'⟩ := hlater
    obtain ⟨r', hr', hat, -⟩ := hplaced c' hc' hfree'
    rw [hdigest, hrow, Option.some.injEq] at hr'
    have hsame : noCase c'.relativePath = noCase c.relativePath := by
      rw [← hat, ← hr']
      exact hpath
    exact hsha (hdigest.symm.trans (htidy.own c' (hdone c' hc') c hc hsame))
  · have hkept : (after crates done start).bySha r.sha256 = start.bySha r.sha256 :=
      (Behind.refl cs start).bySha_after hdone fun c' hc' hdigest => by
        by_contra hfree'
        exact hlater ⟨c', hc', hdigest, hfree'⟩
    have hstart := MediaTable.mem_rows_iff.2 (hkept ▸ hrow)
    exact hlater (hlead.moved done c todo hcs hfree r hstart hsha hpath)

variable (crates) in
/-- **The visited files that lead are where their rows are.** -/
lemma placed (htidy : Tidy cs) (hlead : Leads cs start) (hcs : cs = done ++ todo) :
    Placed crates cs start done := by
  induction done using List.reverseRecOn generalizing todo with
  | nil => exact fun _ hc => by cases hc
  | append_singleton done c ih =>
    rw [List.append_assoc, List.singleton_append] at hcs
    have hplaced := ih hcs
    have hheld := held_iff_of_placed htidy hlead hcs hplaced
    obtain ⟨hdone, htodo⟩ := mem_of_split hcs
    have hc : c ∈ cs := htodo c List.mem_cons_self
    intro c' hc' hfree'
    have hafter : after crates (done ++ [c]) start = next crates c (after crates done start) :=
      after_append crates start done [c]
    rw [AtFile, hafter]
    by_cases hoccupied : Occupied cs start c
    · rw [(reconcile_held crates (hheld.2 hoccupied)).1]
      rcases List.mem_append.1 hc' with hc' | hc'
      · exact hplaced c' hc' hfree'
      · exact absurd hoccupied (List.mem_singleton.1 hc' ▸ hfree')
    · have htaken := reconcile_free crates fun h => hoccupied (hheld.1 h)
      by_cases hsha : c'.sha256 = c.sha256
      · have hc'' : c' ∈ cs := by
          rcases List.mem_append.1 hc' with hc' | hc'
          · exact hdone c' hc'
          · exact List.mem_singleton.1 hc' ▸ hc
        rw [hlead.only c' hc'' c hc hsha hfree' hoccupied]
        exact htaken.atFile
      · rcases List.mem_append.1 hc' with hc' | hc'
        · rw [htaken.others _ hsha]
          exact hplaced c' hc' hfree'
        · exact absurd (congrArg Found.sha256 (List.mem_singleton.1 hc')) hsha

variable (crates) in
lemma held_iff (htidy : Tidy cs) (hlead : Leads cs start) (hcs : cs = done ++ c :: todo) :
    Held c (after crates done start) ↔ Occupied cs start c :=
  held_iff_of_placed htidy hlead hcs (placed crates htidy hlead hcs)

variable (crates) in
/-- When the digest of a file has a row. -/
lemma row_isSome_iff (htidy : Tidy cs) (hlead : Leads cs start) (hcs : cs = done ++ todo)
    (d : String) :
    ((after crates done start).bySha d).isSome ↔
      (start.bySha d).isSome ∨ ∃ c' ∈ done, c'.sha256 = d ∧ ¬Occupied cs start c' := by
  by_cases hlater : ∃ c' ∈ done, c'.sha256 = d ∧ ¬Occupied cs start c'
  · refine iff_of_true ?_ (.inr hlater)
    obtain ⟨c', hc', rfl, hfree'⟩ := hlater
    obtain ⟨r, hr, -⟩ := placed crates htidy hlead hcs c' hc' hfree'
    rw [hr]
    rfl
  · have hkept : (after crates done start).bySha d = start.bySha d :=
      (Behind.refl cs start).bySha_after (mem_of_split hcs).1 fun c' hc' hdigest => by
        by_contra hfree'
        exact hlater ⟨c', hc', hdigest, hfree'⟩
    rw [hkept]
    exact ⟨.inl, fun h => h.resolve_right hlater⟩

variable (crates) in
/-- A file that leads is visited and counted; one at an occupied path is only if its digest has no
row. -/
lemma outcome_rel (htidy : Tidy cs) (hlead : Leads cs start) (hcs : cs = done ++ c :: todo) :
    (outcome crates c (after crates done start)).rel =
      if Occupied cs start c ∧ ((after crates done start).bySha c.sha256).isSome then none
      else some c.relativePath := by
  have hheld := held_iff crates htidy hlead hcs
  by_cases hoccupied : Occupied cs start c
  · rw [(reconcile_held crates (hheld.2 hoccupied)).2.1]
    simp [hoccupied]
  · rw [if_neg fun h => hoccupied h.1]
    exact (reconcile_free crates fun h => hoccupied (hheld.1 h)).rel

/-! ### What is counted and visited -/

/-- The files that their digests go by. -/
def leading (cs : List Found) (start : MediaTable) (done : List Found) : List Found :=
  done.filter fun c => ¬Occupied cs start c

lemma leading_append (cs : List Found) (start : MediaTable) (done ds : List Found) :
    leading cs start (done ++ ds) = leading cs start done ++ leading cs start ds :=
  List.filter_append ..

variable (crates) in
/-- **The bytes of the files that lead are counted, and no others exactly when each other file comes
when its digest has a row.** -/
lemma counted_spec (htidy : Tidy cs) (hlead : Leads cs start) (hcs : cs = done ++ todo) :
    ((leading cs start done).map (·.size)).sum ≤ counted crates done start ∧
      (counted crates done start = ((leading cs start done).map (·.size)).sum ↔
        ∀ front c back, done = front ++ c :: back → Occupied cs start c →
          ((after crates front start).bySha c.sha256).isSome) := by
  induction done using List.reverseRecOn generalizing todo with
  | nil => exact ⟨Nat.le_refl 0, iff_of_true rfl fun front c back h => by simp at h⟩
  | append_singleton done c ih =>
    rw [List.append_assoc, List.singleton_append] at hcs
    obtain ⟨hle, heq⟩ := ih hcs
    have hrel := outcome_rel crates htidy hlead hcs
    have hpos := htidy.sizes c ((mem_of_split hcs).2 c List.mem_cons_self)
    have hcounted : counted crates (done ++ [c]) start = counted crates done start +
        if (outcome crates c (after crates done start)).rel.isSome then c.size else 0 :=
      counted_append crates start done [c]
    -- the splits of the longer list
    have hsplits : (∀ front c' back, done ++ [c] = front ++ c' :: back → Occupied cs start c' →
        ((after crates front start).bySha c'.sha256).isSome) ↔
        (∀ front c' back, done = front ++ c' :: back → Occupied cs start c' →
          ((after crates front start).bySha c'.sha256).isSome) ∧
        (Occupied cs start c → ((after crates done start).bySha c.sha256).isSome) := by
      constructor
      · intro h
        exact ⟨fun front c' back hsplit => h front c' (back ++ [c]) (by rw [hsplit]; simp),
          h done c [] rfl⟩
      · rintro ⟨hfront, hlast⟩ front c' back hsplit hoccupied
        rcases List.eq_nil_or_concat back with rfl | ⟨back', last, rfl⟩
        · obtain ⟨rfl, hsame⟩ := List.append_inj' hsplit rfl
          obtain rfl : c = c' := List.singleton_inj.1 hsame
          exact hlast hoccupied
        · rw [List.concat_eq_append, ← List.cons_append, ← List.append_assoc] at hsplit
          exact hfront front c' back' (List.append_inj' hsplit rfl).1 hoccupied
    rw [hsplits, ← heq, hcounted, leading_append]
    by_cases hoccupied : Occupied cs start c
    · have hnone : leading cs start [c] = [] := List.filter_cons_of_neg (by simpa using hoccupied)
      rw [hnone, List.append_nil]
      by_cases hrow : ((after crates done start).bySha c.sha256).isSome
      · have hgain :
            (if (outcome crates c (after crates done start)).rel.isSome then c.size else 0) =
            0 := by
          rw [hrel, if_pos (⟨hoccupied, hrow⟩ : _ ∧ _)]
          rfl
        rw [hgain, Nat.add_zero]
        exact ⟨hle, ⟨fun h => ⟨h, fun _ => hrow⟩, fun h => h.1⟩⟩
      · have hgain :
            (if (outcome crates c (after crates done start)).rel.isSome then c.size else 0) =
            c.size := by
          rw [hrel, if_neg (fun h : _ ∧ _ => hrow h.2)]
          rfl
        rw [hgain]
        exact ⟨by omega, iff_of_false (by omega) fun h => hrow (h.2 hoccupied)⟩
    · have hone : leading cs start [c] = [c] := List.filter_cons_of_pos (by simpa using hoccupied)
      have hgain : (if (outcome crates c (after crates done start)).rel.isSome then c.size else 0) =
          c.size := by
        rw [hrel, if_neg (fun h : _ ∧ _ => hoccupied h.1)]
        rfl
      rw [hone, hgain, List.map_append, List.sum_append, List.map_singleton, List.sum_singleton]
      exact ⟨by omega, ⟨fun h => ⟨by omega, fun h' => absurd h' hoccupied⟩, fun h => by rw [h.1]⟩⟩

/-- **The bytes counted** are those of the files that lead exactly when every other file is
known. -/
lemma counted_eq_iff (htidy : Tidy cs) (hlead : Leads cs start) :
    counted crates cs start = ((leading cs start cs).map (·.size)).sum ↔ Known cs start := by
  have hcs : cs = cs ++ [] := (List.append_nil cs).symm
  rw [(counted_spec crates htidy hlead hcs).2]
  refine forall_congr' fun front => forall_congr' fun c => forall_congr' fun back =>
    forall_congr' fun hsplit => forall_congr' fun _ => ?_
  exact row_isSome_iff crates htidy hlead hsplit c.sha256

/-- **The paths visited** are those of the files that lead. -/
lemma visits_eq (htidy : Tidy cs) (hlead : Leads cs start) (hknown : Known cs start)
    (hcs : cs = done ++ todo) :
    visits crates done start = (leading cs start done).map (·.relativePath) := by
  induction done using List.reverseRecOn generalizing todo with
  | nil => rfl
  | append_singleton done c ih =>
    rw [List.append_assoc, List.singleton_append] at hcs
    have hrel := outcome_rel crates htidy hlead hcs
    have hlast : visits crates (done ++ [c]) start = visits crates done start ++
        ((outcome crates c (after crates done start)).rel.toList ++ []) :=
      visits_append crates start done [c]
    rw [hlast, ih hcs, hrel, leading_append, List.map_append]
    by_cases hoccupied : Occupied cs start c
    · have hnone : leading cs start [c] = [] := List.filter_cons_of_neg (by simpa using hoccupied)
      have hrow := (row_isSome_iff crates htidy hlead hcs c.sha256).2
        (hknown done c todo hcs hoccupied)
      rw [hnone, if_pos ⟨hoccupied, hrow⟩]
      rfl
    · have hone : leading cs start [c] = [c] := List.filter_cons_of_pos (by simpa using hoccupied)
      rw [hone, if_neg fun h => hoccupied h.1]
      rfl

end Prefix

/-! ### The rows afterwards -/

/-- A row names a file of its digest. -/
def Names (cs : List Found) (r : MediaRow) : Prop :=
  ∃ c ∈ cs, c.sha256 = r.sha256 ∧ c.relativePath = r.relativePath

instance (cs : List Found) (r : MediaRow) : Decidable (Names cs r) :=
  inferInstanceAs (Decidable (∃ c ∈ cs, _))

/-- The size of the file that a row names, if any. -/
def storedBytes (cs : List Found) (r : MediaRow) : ℕ :=
  ((cs.find? fun c => c.sha256 = r.sha256 ∧ c.relativePath = r.relativePath).map (·.size)).getD 0

/-- The rows that name a file are those of the files that lead. -/
lemma names_iff {r : MediaRow} (hr : r ∈ (after crates cs start).rows) :
    Names cs r ↔ ∃ c ∈ leading cs start cs, c.sha256 = r.sha256 ∧
      c.relativePath = r.relativePath := by
  constructor
  · rintro ⟨c, hc, hsha, hpath⟩
    refine ⟨c, List.mem_filter.2 ⟨hc, decide_eq_true fun hoccupied => ?_⟩, hsha, hpath⟩
    have hheld := ((Behind.refl cs start).after crates fun c hc => hc).held hc hoccupied
    exact hheld.not_at (hsha ▸ MediaTable.mem_rows_iff.1 hr) (congrArg noCase hpath.symm)
  · rintro ⟨c, hc, hsame⟩
    exact ⟨c, (List.mem_filter.1 hc).1, hsame⟩

section After

variable (htidy : Tidy cs) (hlead : Leads cs start)
include htidy hlead

/-- A file that leads is named by the row with its path. -/
lemma sha_of_path {r : MediaRow} (hr : r ∈ (after crates cs start).rows)
    (hc : c ∈ leading cs start cs) (hpath : c.relativePath = r.relativePath) :
    c.sha256 = r.sha256 := by
  obtain ⟨hmem, hfree⟩ := List.mem_filter.1 hc
  obtain ⟨r', hr', hat, -⟩ := placed crates htidy hlead (List.append_nil cs).symm c hmem
    (of_decide_eq_true hfree)
  obtain ⟨hmem', hsha⟩ := MediaTable.bySha_eq_some.1 hr'
  rw [← hsha, MediaTable.eq_of_path hmem' hr (congrArg noCase (hat.trans hpath))]

/-- **Every digest of a file has its row, which names a file of it.** -/
lemma named (hc : c ∈ cs) : ∃ r, (after crates cs start).bySha c.sha256 = some r ∧ Names cs r := by
  obtain ⟨c', hc', hsha, hfree⟩ := hlead.one c hc
  obtain ⟨r, hr, hat, -⟩ := placed crates htidy hlead (List.append_nil cs).symm c' hc' hfree
  rw [hsha] at hr
  exact ⟨r, hr, c', hc', hsha.trans (MediaTable.bySha_eq_some.1 hr).2.symm, hat.symm⟩

end After

/-- Terms that are nothing may be left out. -/
lemma sum_map_filter {α : Type} (f : α → ℕ) (p : α → Bool) {l : List α}
    (h : ∀ x ∈ l, p x = false → f x = 0) : (l.map f).sum = ((l.filter p).map f).sum := by
  induction l with
  | nil => rfl
  | cons x l ih =>
    have hrest := ih fun y hy => h y (List.mem_cons_of_mem x hy)
    cases hp : p x with
    | true => rw [List.filter_cons_of_pos hp, List.map_cons, List.map_cons, List.sum_cons,
      List.sum_cons, hrest]
    | false =>
      rw [List.filter_cons_of_neg (by simp [hp]), List.map_cons, List.sum_cons,
        h x List.mem_cons_self hp, Nat.zero_add, hrest]

/-- **The bytes that are stored** are those of the files that lead. -/
lemma sum_storedBytes (htidy : Tidy cs) (hlead : Leads cs start) :
    ((after crates cs start).rows.map (storedBytes cs)).sum =
      ((leading cs start cs).map (·.size)).sum := by
  let pairOf (r : MediaRow) : String × String := (r.sha256, r.relativePath)
  let pair (c : Found) : String × String := (c.sha256, c.relativePath)
  let bytesAt (p : String × String) : ℕ :=
    ((cs.find? fun c => c.sha256 = p.1 ∧ c.relativePath = p.2).map (·.size)).getD 0
  have hzero : ∀ r ∈ (after crates cs start).rows, decide (Names cs r) = false →
      storedBytes cs r = 0 := by
    intro r _ hno
    have hnone : (cs.find? fun c => c.sha256 = r.sha256 ∧ c.relativePath = r.relativePath) = none :=
      List.find?_eq_none.2 fun c hc hsame =>
        of_decide_eq_false hno ⟨c, hc, of_decide_eq_true hsame⟩
    rw [storedBytes, hnone]
    rfl
  have hsize : ∀ c ∈ leading cs start cs, bytesAt (pair c) = c.size := by
    intro c hc
    have hmem := (List.mem_filter.1 hc).1
    cases hfind : cs.find? fun c' => c'.sha256 = (pair c).1 ∧ c'.relativePath = (pair c).2 with
    | none => exact absurd (decide_eq_true ⟨rfl, rfl⟩) (List.find?_eq_none.1 hfind c hmem)
    | some c' =>
      have hsame := List.find?_some hfind
      rw [decide_eq_true_eq] at hsame
      have heq := htidy.eq_of_path (List.mem_of_find?_eq_some hfind) hmem hsame.2
      dsimp only [bytesAt]
      rw [hfind, heq]
      rfl
  have hperm : (((after crates cs start).rows.filter fun r => Names cs r).map pairOf).Perm
      ((leading cs start cs).map pair) := by
    refine (List.perm_ext_iff_of_nodup ?_ ?_).2 fun p => ?_
    · have hall : ((after crates cs start).rows.map pairOf).Nodup := by
        refine List.Nodup.of_map Prod.fst ?_
        rw [List.map_map]
        exact (after crates cs start).digests
      exact hall.sublist (List.filter_sublist.map _)
    · have hall : (cs.map pair).Nodup := by
        refine List.Nodup.of_map Prod.snd ?_
        rw [List.map_map]
        exact htidy.paths
      exact hall.sublist (List.filter_sublist.map _)
    · constructor
      · intro hp
        obtain ⟨r, hr, rfl⟩ := List.mem_map.1 hp
        obtain ⟨hrow, hnames⟩ := List.mem_filter.1 hr
        obtain ⟨c, hc, hsha, hpath⟩ := (names_iff hrow).1 (of_decide_eq_true hnames)
        exact List.mem_map.2 ⟨c, hc, Prod.ext hsha hpath⟩
      · intro hp
        obtain ⟨c, hc, rfl⟩ := List.mem_map.1 hp
        obtain ⟨hmem, hfree⟩ := List.mem_filter.1 hc
        obtain ⟨r, hr, hat, -⟩ := placed crates htidy hlead (List.append_nil cs).symm c hmem
          (of_decide_eq_true hfree)
        obtain ⟨hrow, hsha⟩ := MediaTable.bySha_eq_some.1 hr
        have hnames : Names cs r := ⟨c, hmem, hsha.symm, hat.symm⟩
        exact List.mem_map.2 ⟨r, List.mem_filter.2 ⟨hrow, decide_eq_true hnames⟩, Prod.ext hsha hat⟩
  calc ((after crates cs start).rows.map (storedBytes cs)).sum
      = (((after crates cs start).rows.filter fun r => Names cs r).map (storedBytes cs)).sum :=
        sum_map_filter _ _ hzero
    _ =
      ((((after crates cs start).rows.filter fun r => Names cs r).map pairOf).map bytesAt).sum := by
        rw [List.map_map]
        rfl
    _ = (((leading cs start cs).map pair).map bytesAt).sum := (hperm.map bytesAt).sum_nat
    _ = ((leading cs start cs).map (·.size)).sum := by
        rw [List.map_map]
        exact congrArg List.sum (List.map_congr_left hsize)

/-- **The rows whose path was visited** are those that name a file. -/
lemma visited_iff (htidy : Tidy cs) (hlead : Leads cs start) (hknown : Known cs start)
    {r : MediaRow} (hr : r ∈ (after crates cs start).rows) :
    r.relativePath ∈ visits crates cs start ↔ Names cs r := by
  rw [visits_eq htidy hlead hknown (List.append_nil cs).symm, names_iff hr, List.mem_map]
  constructor
  · rintro ⟨c, hc, hpath⟩
    exact ⟨c, hc, sha_of_path htidy hlead hr hc hpath, hpath⟩
  · rintro ⟨c, hc, -, hpath⟩
    exact ⟨c, hc, hpath⟩

/-- **A second walk changes nothing.** -/
lemma upserts_after (htidy : Tidy cs) (hlead : Leads cs start) :
    upserts crates cs (after crates cs start) = 0 := by
  have hbehind : Behind cs start (after crates cs start) :=
    (Behind.refl cs start).after crates fun c hc => hc
  refine upserts_eq_zero fun c hc => ?_
  by_cases hheld : Held c (after crates cs start)
  · obtain ⟨hsame, -, hquiet⟩ := reconcile_held crates hheld
    exact ⟨hsame, hquiet⟩
  · have htaken := reconcile_free crates hheld
    have hfree : ¬Occupied cs start c := fun hoccupied => hheld (hbehind.held hc hoccupied)
    have hquiet := htaken.quiet.2 (placed crates htidy hlead (List.append_nil cs).symm c hc hfree)
    exact ⟨htaken.same hquiet, hquiet⟩

/-! ### The condition is needed -/

section Needed

variable (htidy : Tidy cs)
  (hrows : ∀ c ∈ cs, ∃ r, (after crates cs start).bySha c.sha256 = some r ∧ Names cs r)
include htidy hrows

omit htidy in
/-- The row of a digest names a file whose path is not occupied. -/
lemma exists_free (hc : c ∈ cs) : ∃ c' ∈ cs, c'.sha256 = c.sha256 ∧ ¬Occupied cs start c' ∧
    ∃ r, (after crates cs start).bySha c.sha256 = some r ∧ r.relativePath = c'.relativePath := by
  obtain ⟨r, hr, c', hc', hsha, hpath⟩ := hrows c hc
  have hdigest : c'.sha256 = c.sha256 := hsha.trans (MediaTable.bySha_eq_some.1 hr).2
  refine ⟨c', hc', hdigest, fun hoccupied => ?_, r, hr, hpath.symm⟩
  have hheld := ((Behind.refl cs start).after crates fun c hc => hc).held hc' hoccupied
  exact hheld.not_at (hdigest ▸ hr) (congrArg noCase hpath.symm)

/-- Only a row of a digest without files can have the path of a file in another's place. -/
lemma occupied_of_held (hc : c ∈ cs) (hheld : Held c (after crates cs start)) :
    Occupied cs start c := by
  obtain ⟨r, hr, hsha, hpath⟩ := hheld
  have hrow := MediaTable.mem_rows_iff.1 hr
  have hnone : ∀ c' ∈ cs, c'.sha256 ≠ r.sha256 := by
    intro c' hc' hdigest
    obtain ⟨c₁, hc₁, hsame, -, r₁, hr₁, hat⟩ := exists_free hrows hc'
    rw [hdigest, hrow, Option.some.injEq] at hr₁
    have hown := htidy.own c₁ hc₁ c hc (by rw [← hat, ← hr₁]; exact hpath)
    exact hsha (hdigest.symm.trans (hsame.symm.trans hown))
  have hbehind : Behind cs start (after crates cs start) :=
    (Behind.refl cs start).after crates fun c hc => hc
  exact ⟨r, MediaTable.mem_rows_iff.2 ((hbehind r.sha256 hnone).symm.trans hrow), hnone, hpath⟩

/-- **What a scan needs to keep its promises.** -/
lemma leads_of_rows (hagain : upserts crates cs (after crates cs start) = 0) : Leads cs start := by
  have hat : ∀ c ∈ cs, ¬Occupied cs start c → AtFile (after crates cs start) c := fun c hc hfree =>
    (reconcile_free crates fun hheld => hfree (occupied_of_held htidy hrows hc hheld)).quiet.1
      ((quiet_of_upserts hagain).2 c hc)
  have honly : ∀ c ∈ cs, ∀ c' ∈ cs, c.sha256 = c'.sha256 → ¬Occupied cs start c →
      ¬Occupied cs start c' → c = c' := by
    intro c hc c' hc' hsha hfree hfree'
    obtain ⟨r, hr, hpath, -⟩ := hat c hc hfree
    obtain ⟨r', hr', hpath', -⟩ := hat c' hc' hfree'
    rw [← hsha, hr, Option.some.injEq] at hr'
    exact htidy.eq_of_path hc hc' (by rw [← hpath, ← hpath', hr'])
  refine ⟨fun c hc => ?_, honly, fun done c todo hcs hfree r hr hsha hpath => ?_⟩
  · obtain ⟨c', hc', hsame, hfree, -⟩ := exists_free hrows hc
    exact ⟨c', hc', hsame, hfree⟩
  · -- else the row stands in the way of the file, whose digest gets its path from no other file
    by_contra hnone
    obtain ⟨hdone, htodo⟩ := mem_of_split hcs
    have hc : c ∈ cs := htodo c List.mem_cons_self
    have hbehind : Behind cs start (after crates done start) :=
      (Behind.refl cs start).after crates hdone
    have hkept : (after crates done start).bySha r.sha256 = start.bySha r.sha256 :=
      (Behind.refl cs start).bySha_after hdone fun c' hc' hdigest => by
        by_contra hfree'
        exact hnone ⟨c', hc', hdigest, hfree'⟩
    have hrow : r ∈ (after crates done start).rows :=
      MediaTable.mem_rows_iff.2 (hkept.trans (MediaTable.mem_rows_iff.1 hr))
    have hheld : Held c (after crates done start) := ⟨r, hrow, hsha, hpath⟩
    have hnotMem : c ∉ todo := by
      have hnodup : cs.Nodup := htidy.paths.of_map
      rw [hcs] at hnodup
      exact (List.nodup_cons.1 (List.nodup_append.1 hnodup).2.1).1
    have hrest : (after crates cs start).bySha c.sha256 =
        (after crates done start).bySha c.sha256 := by
      have hafter : after crates cs start = after crates todo (after crates done start) := by
        rw [hcs, after_append, after, (reconcile_held crates hheld).1]
      rw [hafter]
      refine hbehind.bySha_after (fun c' hc' => htodo c' (List.mem_cons_of_mem c hc'))
        fun c' hc' hsame => ?_
      by_contra hfree'
      have heq := honly c' (htodo c' (List.mem_cons_of_mem c hc')) c hc hsame hfree' hfree
      exact hnotMem (heq ▸ hc')
    obtain ⟨r', hr', hpath', -⟩ := hat c hc hfree
    rw [hrest] at hr'
    exact hheld.not_at hr' (congrArg noCase hpath')

end Needed

/-- **When a scan keeps its promises**, as far as the files at their canonical paths go. -/
theorem settles_iff (crates : ScanCrates) (htidy : Tidy cs) (start : MediaTable) :
    ((∀ c ∈ cs, ∃ r, (after crates cs start).bySha c.sha256 = some r ∧ Names cs r) ∧
      counted crates cs start = ((after crates cs start).rows.map (storedBytes cs)).sum ∧
      upserts crates cs (after crates cs start) = 0) ↔ Leads cs start ∧ Known cs start := by
  constructor
  · rintro ⟨hrows, hbytes, hagain⟩
    have hlead := leads_of_rows htidy hrows hagain
    rw [sum_storedBytes htidy hlead] at hbytes
    exact ⟨hlead, (counted_eq_iff htidy hlead).1 hbytes⟩
  · rintro ⟨hlead, hknown⟩
    refine ⟨fun c hc => named htidy hlead hc, ?_, upserts_after htidy hlead⟩
    rw [sum_storedBytes htidy hlead]
    exact (counted_eq_iff htidy hlead).2 hknown

end Locast.Library
