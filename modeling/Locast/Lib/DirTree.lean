import Mathlib.Data.List.Perm.Basic
import Mathlib.Data.List.Flatten
import Mathlib.Algebra.BigOperators.Group.List.Basic
import Mathlib.Data.List.Nodup
import Mathlib.Data.List.Sort
import Mathlib.Algebra.GroupWithZero.Nat

/-!
# Directory trees

A directory lists its entries, each a leaf or a directory below.  A walk with a stack looks at the
entries of one directory at a time in a chosen order and puts off the directories below; whatever
the order, it comes to every leaf once.
-/

namespace Locast.Lib

/-- The entries of a directory, as they are listed. -/
inductive Dir (ν α : Type*) where
  | nil
  | leaf (name : ν) (a : α) (rest : Dir ν α)
  | sub (name : ν) (below : Dir ν α) (rest : Dir ν α)

namespace Dir

variable {ν α : Type*}

/-- The entries as a list. -/
def entries : Dir ν α → List (ν × (α ⊕ Dir ν α))
  | nil => []
  | leaf n a rest => (n, .inl a) :: rest.entries
  | sub n below rest => (n, .inr below) :: rest.entries

/-- How many entries there are, here and below, and the directory itself. -/
def size : Dir ν α → ℕ
  | nil => 1
  | leaf _ _ rest => rest.size + 1
  | sub _ below rest => below.size + rest.size + 1

/-- The leaves with their paths. -/
def leaves : List ν → Dir ν α → List (List ν × α)
  | _, nil => []
  | p, leaf n a rest => (p ++ [n], a) :: rest.leaves p
  | p, sub n below rest => below.leaves (p ++ [n]) ++ rest.leaves p

/-- The leaves among some entries. -/
def leavesAmong (p : List ν) (es : List (ν × (α ⊕ Dir ν α))) : List (List ν × α) :=
  es.filterMap fun e => e.2.getLeft?.map (p ++ [e.1], ·)

/-- The directories among some entries. -/
def subsAmong (p : List ν) (es : List (ν × (α ⊕ Dir ν α))) : List (List ν × Dir ν α) :=
  es.filterMap fun e => e.2.getRight?.map (p ++ [e.1], ·)

/-- The leaves of the directories on a stack. -/
def leavesOf (stack : List (List ν × Dir ν α)) : List (List ν × α) :=
  stack.flatMap fun d => d.2.leaves d.1

/-- The entries of the directories on a stack. -/
def sizeOf (stack : List (List ν × Dir ν α)) : ℕ := (stack.map (·.2.size)).sum

lemma sizeOf_subsAmong_entries (p : List ν) (d : Dir ν α) :
    sizeOf (subsAmong p d.entries) < d.size := by
  induction d with
  | nil => exact Nat.zero_lt_one
  | leaf n a rest ih => exact Nat.lt_succ_of_lt ih
  | sub n below rest _ ih =>
    have hsub : sizeOf (subsAmong p (sub n below rest).entries) =
        below.size + sizeOf (subsAmong p rest.entries) := rfl
    rw [hsub, size]
    omega

/-! ### The walk -/

section Walk

variable (le : ν → ν → Prop) [DecidableRel le]

/-- The entries in the order of the walk; those that compare equal stay in the order they are listed
in. -/
def sorted (d : Dir ν α) : List (ν × (α ⊕ Dir ν α)) :=
  d.entries.insertionSort fun a b => le a.1 b.1

lemma sizeOf_subsAmong_sorted (p : List ν) (d : Dir ν α) :
    sizeOf (subsAmong p (d.sorted le)) < d.size := by
  have hperm : (subsAmong p (d.sorted le)).Perm (subsAmong p d.entries) :=
    (List.perm_insertionSort _ _).filterMap _
  have hsum : sizeOf (subsAmong p (d.sorted le)) = sizeOf (subsAmong p d.entries) :=
    (hperm.map _).sum_eq
  rw [hsum]
  exact sizeOf_subsAmong_entries p d

/-- The walk from a stack of directories, the top first, in at most so many of them: the directories
below are pushed in their order. -/
def walkFrom : ℕ → List (List ν × Dir ν α) → List (List ν × α)
  | 0, _ => []
  | _ + 1, [] => []
  | n + 1, (p, d) :: stack =>
    leavesAmong p (d.sorted le) ++ walkFrom n ((subsAmong p (d.sorted le)).reverse ++ stack)

/-- The walk of a directory. -/
def walk (d : Dir ν α) : List (List ν × α) := walkFrom le d.size [([], d)]

lemma leaves_perm_entries (p : List ν) (d : Dir ν α) :
    (d.leaves p).Perm (leavesAmong p d.entries ++ leavesOf (subsAmong p d.entries)) := by
  induction d with
  | nil => exact .refl _
  | leaf n a rest ih => exact ih.cons _
  | sub n below rest _ ih =>
    have hrest : (below.leaves (p ++ [n]) ++ rest.leaves p).Perm
        (below.leaves (p ++ [n]) ++
          (leavesAmong p rest.entries ++ leavesOf (subsAmong p rest.entries))) :=
      ih.append_left _
    refine hrest.trans ?_
    rw [← List.append_assoc]
    refine (List.perm_append_comm.append_right _).trans ?_
    rw [List.append_assoc]
    exact .refl _

/-- Enough turns come to every leaf of the stack. -/
lemma walkFrom_perm (n : ℕ) (stack : List (List ν × Dir ν α)) (hn : sizeOf stack ≤ n) :
    (walkFrom le n stack).Perm (leavesOf stack) := by
  induction n generalizing stack with
  | zero =>
    cases stack with
    | nil => exact .refl _
    | cons d stack =>
      have hpos : 0 < d.2.size := Nat.lt_of_le_of_lt (Nat.zero_le _)
        (sizeOf_subsAmong_entries d.1 d.2)
      have hcons : sizeOf (d :: stack) = d.2.size + sizeOf stack := rfl
      omega
  | succ n ih =>
    match stack with
    | [] => exact .refl _
    | (p, d) :: stack =>
      have hleaves : (leavesAmong p (d.sorted le)).Perm (leavesAmong p d.entries) :=
        (List.perm_insertionSort _ _).filterMap _
      have hsubs : (leavesOf (subsAmong p (d.sorted le)).reverse).Perm
          (leavesOf (subsAmong p d.entries)) :=
        ((List.reverse_perm _).trans ((List.perm_insertionSort _ _).filterMap _)).flatMap_right _
      have hless := sizeOf_subsAmong_sorted le p d
      have hsum : sizeOf ((subsAmong p (d.sorted le)).reverse ++ stack) =
          sizeOf (subsAmong p (d.sorted le)) + sizeOf stack := by
        simp [sizeOf]
      have hcons : sizeOf ((p, d) :: stack) = d.size + sizeOf stack := rfl
      have hrest := ih ((subsAmong p (d.sorted le)).reverse ++ stack) (by omega)
      have hsplit : leavesOf ((subsAmong p (d.sorted le)).reverse ++ stack) =
          leavesOf (subsAmong p (d.sorted le)).reverse ++ leavesOf stack := List.flatMap_append
      rw [hsplit] at hrest
      have hall : leavesOf ((p, d) :: stack) = d.leaves p ++ leavesOf stack := rfl
      rw [hall]
      refine (hleaves.append (hrest.trans (hsubs.append_right _))).trans ?_
      rw [← List.append_assoc]
      exact (leaves_perm_entries p d).symm.append_right _

/-- **Every leaf once.** -/
theorem walk_perm (d : Dir ν α) : (d.walk le).Perm (d.leaves []) := by
  have hperm := walkFrom_perm le d.size [([], d)] (le_of_eq (Nat.add_zero _))
  rwa [leavesOf, List.flatMap_singleton] at hperm

end Walk

/-! ### Distinct names -/

def names : Dir ν α → List ν
  | nil => []
  | leaf n _ rest => n :: rest.names
  | sub n _ rest => n :: rest.names

/-- No directory lists a name twice. -/
def Distinct : Dir ν α → Prop
  | nil => True
  | leaf n _ rest => n ∉ rest.names ∧ rest.Distinct
  | sub n below rest => n ∉ rest.names ∧ below.Distinct ∧ rest.Distinct

lemma path_of_mem_leaves {p : List ν} {d : Dir ν α} {q : List ν × α} (h : q ∈ d.leaves p) :
    ∃ n ∈ d.names, ∃ l, q.1 = p ++ n :: l := by
  induction d generalizing p with
  | nil => exact absurd h List.not_mem_nil
  | leaf n a rest ih =>
    rcases List.mem_cons.1 h with rfl | h
    · exact ⟨n, List.mem_cons_self, [], rfl⟩
    · obtain ⟨m, hm, l, hl⟩ := ih h
      exact ⟨m, List.mem_cons_of_mem _ hm, l, hl⟩
  | sub n below rest ihb ih =>
    rcases List.mem_append.1 h with h | h
    · obtain ⟨m, -, l, hl⟩ := ihb h
      exact ⟨n, List.mem_cons_self, m :: l, by rw [hl, List.append_assoc]; rfl⟩
    · obtain ⟨m, hm, l, hl⟩ := ih h
      exact ⟨m, List.mem_cons_of_mem _ hm, l, hl⟩

lemma notMem_leaves {n : ν} {rest : Dir ν α} (hn : n ∉ rest.names) (p l : List ν) :
    p ++ n :: l ∉ (rest.leaves p).map (·.1) := by
  intro hmem
  obtain ⟨q, hq, hpath⟩ := List.mem_map.1 hmem
  obtain ⟨m, hm, l', hl'⟩ := path_of_mem_leaves hq
  rw [hpath] at hl'
  injection List.append_cancel_left hl' with hnm
  exact hn (hnm ▸ hm)

/-- **Paths are distinct** where the names are. -/
theorem nodup_leaves {p : List ν} {d : Dir ν α} (h : d.Distinct) :
    ((d.leaves p).map (·.1)).Nodup := by
  induction d generalizing p with
  | nil => exact List.nodup_nil
  | leaf n a rest ih => exact List.nodup_cons.2 ⟨notMem_leaves h.1 p [], ih h.2⟩
  | sub n below rest ihb ih =>
    rw [leaves, List.map_append]
    refine List.nodup_append'.2 ⟨ihb h.2.1, ih h.2.2, fun q hq hrest => ?_⟩
    obtain ⟨x, hx, rfl⟩ := List.mem_map.1 hq
    obtain ⟨m, -, l, hl⟩ := path_of_mem_leaves hx
    rw [hl, List.append_assoc] at hrest
    exact notMem_leaves h.1 p (m :: l) hrest

/-- The walk's paths are distinct. -/
lemma nodup_walk (le : ν → ν → Prop) [DecidableRel le] {d : Dir ν α} (h : d.Distinct) :
    ((d.walk le).map (·.1)).Nodup :=
  ((d.walk_perm le).map _).nodup_iff.2 (nodup_leaves h)

end Dir

end Locast.Lib
