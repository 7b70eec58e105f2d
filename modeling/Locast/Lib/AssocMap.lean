import Mathlib.Algebra.BigOperators.Group.List.Basic
import Mathlib.Data.List.AList
import Mathlib.Algebra.GroupWithZero.Nat

/-!
# Finite maps with values of one type

`AMap κ ν` is Mathlib's `AList` at a constant family: the model of a `HashMap`.  This file adds what
a hash map has over an `AList` (its values as a list, mapping over the values, in-place updates) and
how sums and counts over the values follow an insertion or a removal.  Everything about values is
read off one permutation, `vals_perm_of_get`.
-/

namespace Locast.Lib

/-- A finite map with keys `κ` and values `ν`. -/
abbrev AMap (κ ν : Type*) : Type _ := AList fun _ : κ => ν

end Locast.Lib

namespace AList

open Locast.Lib (AMap)

variable {κ ν : Type*}

/-- The values, one for each key, in no particular order. -/
def vals (m : AMap κ ν) : List ν := m.entries.map Sigma.snd

/-- The number of keys. -/
def size (m : AMap κ ν) : ℕ := m.vals.length

/-- The sum of `f` over the values. -/
def sumBy (f : ν → ℕ) (m : AMap κ ν) : ℕ := (m.vals.map f).sum

/-- The number of values that pass `p`. -/
def countBy (p : ν → Bool) (m : AMap κ ν) : ℕ := m.vals.countP p

/-- Every value replaced by its image. -/
def mapVals (f : ν → ν) (m : AMap κ ν) : AMap κ ν where
  entries := m.entries.map fun e => ⟨e.1, f e.2⟩
  nodupKeys := by
    have h : (m.entries.map fun e : (_ : κ) × ν => (⟨e.1, f e.2⟩ : (_ : κ) × ν)).keys =
        m.entries.keys := by simp [List.keys, Function.comp_def]
    rw [List.NodupKeys, h]
    exact m.nodupKeys

/-- Every value replaced by its image, which may depend on the key. -/
def mapKeyed (f : κ → ν → ν) (m : AMap κ ν) : AMap κ ν where
  entries := m.entries.map fun e => ⟨e.1, f e.1 e.2⟩
  nodupKeys := by
    have h : (m.entries.map fun e : (_ : κ) × ν => (⟨e.1, f e.1 e.2⟩ : (_ : κ) × ν)).keys =
        m.entries.keys := by simp [List.keys, Function.comp_def]
    rw [List.NodupKeys, h]
    exact m.nodupKeys

/-- The entries that pass `p`. -/
def keep (p : κ → ν → Bool) (m : AMap κ ν) : AMap κ ν where
  entries := m.entries.filter fun e => p e.1 e.2
  nodupKeys := m.nodupKeys.sublist List.filter_sublist

/-! ### Values and keys -/

@[simp] lemma vals_empty : (∅ : AMap κ ν).vals = [] := rfl
@[simp] lemma size_empty : (∅ : AMap κ ν).size = 0 := rfl
@[simp] lemma sumBy_empty (f : ν → ℕ) : (∅ : AMap κ ν).sumBy f = 0 := rfl
@[simp] lemma countBy_empty (p : ν → Bool) : (∅ : AMap κ ν).countBy p = 0 := rfl

variable [DecidableEq κ]

/-- `AList.lookup` at a constant family: its type does not depend on the key. -/
def get (m : AMap κ ν) (k : κ) : Option ν := m.lookup k

@[simp] lemma get_empty (k : κ) : (∅ : AMap κ ν).get k = none := rfl

lemma get_insert (m : AMap κ ν) (k k' : κ) (v : ν) :
    (m.insert k v).get k' = if k' = k then some v else m.get k' := by
  by_cases h : k' = k
  · subst h
    simp [get]
  · rw [get, AList.lookup_insert_ne h, if_neg h, get]

@[simp] lemma get_insert_self (m : AMap κ ν) (k : κ) (v : ν) : (m.insert k v).get k = some v := by
  simp [get_insert]

lemma get_erase (m : AMap κ ν) (k k' : κ) :
    (m.erase k).get k' = if k' = k then none else m.get k' := by
  by_cases h : k' = k
  · subst h
    simp [get]
  · rw [get, AList.lookup_erase_ne h, if_neg h, get]

lemma mem_iff_get {m : AMap κ ν} {k : κ} : k ∈ m ↔ (m.get k).isSome := AList.lookup_isSome.symm

lemma get_eq_none {m : AMap κ ν} {k : κ} : m.get k = none ↔ k ∉ m := AList.lookup_eq_none

lemma mem_of_get {m : AMap κ ν} {k : κ} {v : ν} (h : m.get k = some v) : k ∈ m := by
  rw [mem_iff_get, h]
  rfl

lemma exists_get {m : AMap κ ν} {k : κ} (h : k ∈ m) : ∃ v, m.get k = some v :=
  Option.isSome_iff_exists.1 (mem_iff_get.1 h)

lemma get_eq_some_iff {m : AMap κ ν} {k : κ} {v : ν} :
    m.get k = some v ↔ (⟨k, v⟩ : (_ : κ) × ν) ∈ m.entries := AList.mem_lookup_iff

lemma mem_vals {m : AMap κ ν} {v : ν} : v ∈ m.vals ↔ ∃ k, m.get k = some v := by
  simp only [vals, List.mem_map, get_eq_some_iff]
  constructor
  · rintro ⟨⟨k, w⟩, he, rfl⟩
    exact ⟨k, he⟩
  · rintro ⟨k, he⟩
    exact ⟨_, he, rfl⟩

lemma erase_of_notMem {m : AMap κ ν} {k : κ} (h : k ∉ m) : m.erase k = m := by
  refine AList.ext ?_
  exact List.kerase_of_notMem_keys h

@[simp] lemma get_mapVals (f : ν → ν) (m : AMap κ ν) (k : κ) :
    (m.mapVals f).get k = (m.get k).map f := by
  obtain ⟨l, hl⟩ := m
  simp only [get, mapVals, AList.lookup]
  clear hl
  induction l with
  | nil => rfl
  | cons e l ih =>
    obtain ⟨k', w⟩ := e
    by_cases h : k = k'
    · subst h
      simp
    · rw [List.map_cons, List.dlookup_cons_ne _ _ h, List.dlookup_cons_ne _ _ h, ih]

@[simp] lemma get_mapKeyed (f : κ → ν → ν) (m : AMap κ ν) (k : κ) :
    (m.mapKeyed f).get k = (m.get k).map (f k) := by
  obtain ⟨l, hl⟩ := m
  simp only [get, mapKeyed, AList.lookup]
  clear hl
  induction l with
  | nil => rfl
  | cons e l ih =>
    obtain ⟨k', w⟩ := e
    by_cases h : k = k'
    · subst h
      simp
    · rw [List.map_cons, List.dlookup_cons_ne _ _ h, List.dlookup_cons_ne _ _ h, ih]

lemma get_keep (p : κ → ν → Bool) (m : AMap κ ν) (k : κ) :
    (m.keep p).get k = (m.get k).filter (p k) := by
  cases h : m.get k with
  | none =>
    rw [Option.filter_none, get_eq_none]
    intro hk
    obtain ⟨v, hv⟩ := exists_get hk
    have := (List.mem_filter.1 (get_eq_some_iff.1 hv)).1
    rw [← get_eq_some_iff, h] at this
    cases this
  | some v =>
    have hv := get_eq_some_iff.1 h
    by_cases hp : p k v
    · rw [Option.filter_some, if_pos hp, get_eq_some_iff]
      exact List.mem_filter.2 ⟨hv, hp⟩
    · rw [Option.filter_some, if_neg hp, get_eq_none]
      intro hk
      obtain ⟨w, hw⟩ := exists_get hk
      have hw := List.mem_filter.1 (get_eq_some_iff.1 hw)
      rw [← get_eq_some_iff, h] at hw
      cases hw.1
      exact hp hw.2

@[simp] lemma mem_mapVals (f : ν → ν) (m : AMap κ ν) (k : κ) : k ∈ m.mapVals f ↔ k ∈ m := by
  rw [mem_iff_get, mem_iff_get, get_mapVals, Option.isSome_map]

omit [DecidableEq κ] in
lemma vals_mapVals (f : ν → ν) (m : AMap κ ν) : (m.mapVals f).vals = m.vals.map f := by
  simp [vals, mapVals, Function.comp_def]

omit [DecidableEq κ] in
@[simp] lemma size_mapVals (f : ν → ν) (m : AMap κ ν) : (m.mapVals f).size = m.size := by
  simp [size, vals_mapVals]

omit [DecidableEq κ] in
lemma countBy_mapVals (p : ν → Bool) (f : ν → ν) (m : AMap κ ν) (h : ∀ v, p (f v) = p v) :
    (m.mapVals f).countBy p = m.countBy p := by
  simp [countBy, vals_mapVals, List.countP_map, Function.comp_def, h]

/-! ### Sums and counts under insertion and removal -/

/-- **The values after a removal**: the removed value and the rest. -/
theorem vals_perm_of_get {m : AMap κ ν} {k : κ} {v : ν} (h : m.get k = some v) :
    m.vals.Perm (v :: (m.erase k).vals) := by
  have hk : k ∈ m.entries.keys := mem_of_get h
  obtain ⟨w, l₁, l₂, -, he, hr⟩ := List.exists_of_kerase hk
  have hmem : (⟨k, w⟩ : (_ : κ) × ν) ∈ m.entries := by rw [he]; simp
  have hw : w = v := by
    have := get_eq_some_iff.2 hmem
    rw [h] at this
    exact (Option.some.inj this).symm
  subst hw
  have hv : (m.erase k).vals = l₁.map Sigma.snd ++ l₂.map Sigma.snd := by
    rw [vals, show (m.erase k).entries = l₁ ++ l₂ from hr, List.map_append]
  rw [hv, vals, he, List.map_append, List.map_cons]
  exact List.perm_middle

lemma vals_insert (m : AMap κ ν) (k : κ) (v : ν) : (m.insert k v).vals = v :: (m.erase k).vals := by
  rw [vals, AList.entries_insert]
  rfl

lemma size_insert (m : AMap κ ν) (k : κ) (v : ν) : (m.insert k v).size = (m.erase k).size + 1 := by
  simp [size, vals_insert]

lemma size_of_get {m : AMap κ ν} {k : κ} {v : ν} (h : m.get k = some v) :
    m.size = (m.erase k).size + 1 := by
  simpa [size] using (vals_perm_of_get h).length_eq

lemma size_erase_le (m : AMap κ ν) (k : κ) : (m.erase k).size ≤ m.size := by
  by_cases h : k ∈ m
  · obtain ⟨v, hv⟩ := exists_get h
    rw [size_of_get hv]
    exact Nat.le_succ _
  · rw [erase_of_notMem h]

lemma sumBy_insert (f : ν → ℕ) (m : AMap κ ν) (k : κ) (v : ν) :
    (m.insert k v).sumBy f = f v + (m.erase k).sumBy f := by
  simp [sumBy, vals_insert]

lemma sumBy_of_get (f : ν → ℕ) {m : AMap κ ν} {k : κ} {v : ν} (h : m.get k = some v) :
    m.sumBy f = f v + (m.erase k).sumBy f := by
  simpa [sumBy] using ((vals_perm_of_get h).map f).sum_eq

lemma le_sumBy (f : ν → ℕ) {m : AMap κ ν} {k : κ} {v : ν} (h : m.get k = some v) :
    f v ≤ m.sumBy f := by
  rw [sumBy_of_get f h]
  exact Nat.le_add_right _ _

lemma countBy_insert (p : ν → Bool) (m : AMap κ ν) (k : κ) (v : ν) :
    (m.insert k v).countBy p = (m.erase k).countBy p + if p v then 1 else 0 := by
  simp [countBy, vals_insert, List.countP_cons]

lemma countBy_of_get (p : ν → Bool) {m : AMap κ ν} {k : κ} {v : ν} (h : m.get k = some v) :
    m.countBy p = (m.erase k).countBy p + if p v then 1 else 0 := by
  have := (vals_perm_of_get h).countP_eq p
  simpa [countBy, List.countP_cons] using this

lemma countBy_erase_le (p : ν → Bool) (m : AMap κ ν) (k : κ) :
    (m.erase k).countBy p ≤ m.countBy p := by
  by_cases h : k ∈ m
  · obtain ⟨v, hv⟩ := exists_get h
    rw [countBy_of_get p hv]
    exact Nat.le_add_right _ _
  · rw [erase_of_notMem h]

end AList
