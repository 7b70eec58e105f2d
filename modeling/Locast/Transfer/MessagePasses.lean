import Locast.Lib.Positions
import Locast.Transfer.ErrorMessages

/-!
# What the passes over an error message leave

Each pass takes out what it looks for where it stands.  What a later pass brings together is not
looked at again.
-/

namespace Locast.Transfer.Messages

open Locast.Lib

variable {α : Type} {ch : α → Char}

/-! ### Paths -/

variable (ch) in
/-- A path starts here: a slash, a drive, or two backslashes. -/
inductive StartsPath : List α → Prop
  | slash {a : α} (rest : List α) (h : ch a = '/') : StartsPath (a :: rest)
  | drive {a b c : α} (rest : List α) (ha : (ch a).isAlpha = true) (hb : ch b = ':')
      (hc : isSlash (ch c) = true) : StartsPath (a :: b :: c :: rest)
  | unc {a b : α} (rest : List α) (ha : ch a = '\\') (hb : ch b = '\\') :
    StartsPath (a :: b :: rest)

/-- **The first pass at a character**: it goes on behind it, or keeps it where no path starts. -/
lemma stripPaths_cons (skipping : Bool) (a : α) (rest : List α) :
    (∃ p t, a :: rest = p ++ t ∧ p ≠ [] ∧ stripPaths ch skipping (a :: rest) =
      stripPaths ch true t) ∨ ¬StartsPath ch (a :: rest) ∧
        stripPaths ch skipping (a :: rest) = a :: stripPaths ch false rest := by
  rw [stripPaths.eq_def ch skipping (a :: rest)]
  dsimp only
  by_cases hskip : (skipping && isPathChar (ch a)) = true
  · rw [if_pos hskip]
    exact .inl ⟨[a], rest, rfl, List.cons_ne_nil _ _, rfl⟩
  rw [if_neg hskip]
  match rest with
  | b :: c :: rest' =>
    dsimp only
    split_ifs with hdrive hslash hunc
    · exact .inl ⟨[a, b, c], rest', rfl, List.cons_ne_nil _ _, rfl⟩
    · exact .inl ⟨[a], _, rfl, List.cons_ne_nil _ _, rfl⟩
    · exact .inl ⟨[a, b], _, rfl, List.cons_ne_nil _ _, rfl⟩
    · refine .inr ⟨fun hstart => ?_, rfl⟩
      cases hstart with
      | slash _ h => exact hslash (by rw [h]; rfl)
      | drive _ ha hb hc => exact hdrive (by rw [ha, hb, hc]; rfl)
      | unc _ ha hb => exact hunc (by rw [ha, hb]; rfl)
  | [b] =>
    dsimp only
    split_ifs with hslash hunc
    · exact .inl ⟨[a], _, rfl, List.cons_ne_nil _ _, rfl⟩
    · exact .inl ⟨[a, b], [], rfl, List.cons_ne_nil _ _, rfl⟩
    · refine .inr ⟨fun hstart => ?_, rfl⟩
      cases hstart with
      | slash _ h => exact hslash (by rw [h]; rfl)
      | unc _ ha hb => exact hunc (by rw [ha, hb]; rfl)
  | [] =>
    dsimp only
    split_ifs with hslash
    · exact .inl ⟨[a], [], rfl, List.cons_ne_nil _ _, rfl⟩
    · refine .inr ⟨fun hstart => ?_, rfl⟩
      cases hstart with
      | slash _ h => exact hslash (by rw [h]; rfl)

/-- What is kept was there, in its order. -/
lemma stripPaths_sublist (skipping : Bool) (l : List α) : (stripPaths ch skipping l).Sublist l := by
  induction hlen : l.length using Nat.strong_induction_on generalizing skipping l with
  | _ n ih =>
    cases l with
    | nil => exact List.nil_sublist _
    | cons a rest =>
      rcases @stripPaths_cons _ ch skipping a rest with ⟨p, t, hsplit, hp, heq⟩ | ⟨-, heq⟩
      · have hshort : t.length < n := by
          rw [← hlen, hsplit, List.length_append]
          have := List.length_pos_iff.2 hp
          omega
        rw [heq, hsplit]
        exact (ih _ hshort true t rfl).trans (List.sublist_append_right _ _)
      · rw [heq]
        exact (ih _ (by rw [← hlen]; exact Nat.lt_succ_self _) false rest rfl).cons_cons a

/-- **What the first pass keeps starts no path where it stands.** -/
lemma exists_of_mem_stripPaths {skipping : Bool} {l : List α} {x : α}
    (h : x ∈ stripPaths ch skipping l) :
    ∃ u v, l = u ++ x :: v ∧ ¬StartsPath ch (x :: v) := by
  induction hlen : l.length using Nat.strong_induction_on generalizing skipping l with
  | _ n ih =>
    cases l with
    | nil => exact absurd h List.not_mem_nil
    | cons a rest =>
      rcases @stripPaths_cons _ ch skipping a rest with ⟨p, t, hsplit, hp, heq⟩ | ⟨hstart, heq⟩
      · have hshort : t.length < n := by
          rw [← hlen, hsplit, List.length_append]
          have := List.length_pos_iff.2 hp
          omega
        rw [heq] at h
        obtain ⟨u, v, rfl, hx⟩ := ih _ hshort h rfl
        exact ⟨p ++ u, v, by rw [hsplit, List.append_assoc], hx⟩
      · rw [heq] at h
        rcases List.mem_cons.1 h with rfl | h
        · exact ⟨[], rest, rfl, hstart⟩
        · obtain ⟨u, v, rfl, hx⟩ := ih _ (by rw [← hlen]; exact Nat.lt_succ_self _) h rfl
          exact ⟨a :: u, v, rfl, hx⟩

/-! ### Tokens -/

lemma keepRun_sublist (run : List α) : (keepRun run).Sublist run := by
  unfold keepRun
  split_ifs
  · exact List.nil_sublist _
  · exact List.Sublist.refl _

lemma stripTokens_sublist (run l : List α) : (stripTokens ch run l).Sublist (run ++ l) := by
  induction l generalizing run with
  | nil =>
    rw [stripTokens, List.append_nil]
    exact keepRun_sublist run
  | cons a rest ih =>
    rw [stripTokens]
    split_ifs
    · have h := ih (run ++ [a])
      rwa [List.append_assoc] at h
    · exact (keepRun_sublist run).append ((ih []).cons_cons a)

/-- How long the token is in which a member stands. -/
def tokenLength (ch : α → Char) (u v : List α) : ℕ :=
  (u.rtakeWhile fun a => isTokenChar (ch a)).length + 1 +
    (v.takeWhile fun a => isTokenChar (ch a)).length

lemma rtakeWhile_append_cons {p : α → Bool} {a : α} (ha : ¬p a = true) (w u : List α) :
    (w ++ a :: u).rtakeWhile p = u.rtakeWhile p := by
  induction u using List.reverseRecOn with
  | nil => exact List.rtakeWhile_concat_neg p w a ha
  | append_singleton u b ih =>
    rw [← List.cons_append, ← List.append_assoc, List.rtakeWhile_concat, List.rtakeWhile_concat, ih]

/-- **What the second pass keeps of a token stands in a short one.** -/
lemma exists_of_mem_stripTokens {run l : List α} {x : α}
    (hrun : ∀ a ∈ run, isTokenChar (ch a) = true) (h : x ∈ stripTokens ch run l)
    (hx : isTokenChar (ch x) = true) :
    ∃ u v, run ++ l = u ++ x :: v ∧ tokenLength ch u v < longTokenMin := by
  have hshort : ∀ {run l : List α}, (∀ a ∈ run, isTokenChar (ch a) = true) →
      (∀ a ∈ l.head?, isTokenChar (ch a) = false) → x ∈ keepRun run →
      ∃ u v, run ++ l = u ++ x :: v ∧ tokenLength ch u v < longTokenMin := by
    intro run l hrun hl hmem
    unfold keepRun at hmem
    split_ifs at hmem with hlong
    · exact absurd hmem List.not_mem_nil
    obtain ⟨u, v, rfl⟩ := List.append_of_mem hmem
    refine ⟨u, v ++ l, by rw [List.append_assoc]; rfl, ?_⟩
    have hafter : (v ++ l).takeWhile (fun a => isTokenChar (ch a)) = v := by
      rw [List.takeWhile_append_of_pos fun a ha =>
        hrun a (List.mem_append_right _ (List.mem_cons_of_mem _ ha))]
      cases l with
      | nil => exact List.append_nil v
      | cons b l => rw [List.takeWhile_cons, if_neg (by simp [hl b rfl]), List.append_nil]
    have hbefore := (List.rtakeWhile_suffix (fun a => isTokenChar (ch a)) u).length_le
    rw [List.length_append, List.length_cons] at hlong
    rw [tokenLength, hafter]
    omega
  induction l generalizing run with
  | nil => exact hshort hrun (by simp) h
  | cons a rest ih =>
    rw [stripTokens] at h
    split_ifs at h with ha
    · obtain ⟨u, v, hsplit, hlen⟩ := @ih (run ++ [a]) (by
        intro b hb
        rcases List.mem_append.1 hb with hb | hb
        · exact hrun b hb
        · rw [List.mem_singleton.1 hb]
          exact ha) h
      exact ⟨u, v, by rw [← hsplit, List.append_assoc]; rfl, hlen⟩
    · rw [Bool.not_eq_true] at ha
      rcases List.mem_append.1 h with hmem | hmem
      · exact hshort hrun (by simp [ha]) hmem
      rcases List.mem_cons.1 hmem with rfl | hmem
      · rw [hx] at ha
        cases ha
      · obtain ⟨u, v, hsplit, hlen⟩ := @ih [] (by simp) hmem
        rw [List.nil_append] at hsplit
        refine ⟨run ++ a :: u, v, by rw [hsplit, List.append_assoc]; rfl, ?_⟩
        rwa [tokenLength, rtakeWhile_append_cons (by simp [ha])]

lemma stripControls_sublist (l : List α) : (stripControls ch l).Sublist l := List.filter_sublist

/-! ### The passes together -/

lemma kept_sublist (l : List α) : (kept ch l).Sublist (stripTokens ch [] (stripPaths ch false l)) :=
  stripControls_sublist _

lemma kept_sublist_paths (l : List α) : (kept ch l).Sublist (stripPaths ch false l) := by
  have h := @stripTokens_sublist _ ch [] (stripPaths ch false l)
  rw [List.nil_append] at h
  exact (kept_sublist l).trans h

/-- No slash is kept. -/
lemma slash_not_mem_kept {l : List α} {x : α} (h : x ∈ kept ch l) : ch x ≠ '/' := by
  intro hx
  obtain ⟨u, v, -, hstart⟩ := exists_of_mem_stripPaths ((kept_sublist_paths l).subset h)
  exact hstart (.slash v hx)

/-- No control character is kept. -/
lemma control_not_mem_kept {l : List α} {x : α} (h : x ∈ kept ch l) :
    Library.isControl (ch x) = false := by
  have hkeep := (List.mem_filter.1 h).2
  simpa using hkeep

/-! ### Whatever the characters carry -/

lemma map_stripPaths (skipping : Bool) (l : List α) :
    (stripPaths ch skipping l).map ch = stripPaths id skipping (l.map ch) := by
  fun_induction stripPaths ch skipping l with
  | case1 => rfl
  | _ =>
    simp only [List.map_cons, List.map_nil] at *
    rw [stripPaths.eq_def id]
    simp only [id_eq, *, Bool.false_eq_true, ↓reduceIte]

lemma map_keepRun (run : List α) : (keepRun run).map ch = keepRun (run.map ch) := by
  unfold keepRun
  rw [List.length_map]
  split_ifs <;> rfl

lemma map_stripTokens (run l : List α) :
    (stripTokens ch run l).map ch = stripTokens id (run.map ch) (l.map ch) := by
  induction l generalizing run with
  | nil => rw [stripTokens, List.map_nil, stripTokens, map_keepRun]
  | cons a rest ih =>
    rw [stripTokens, List.map_cons, stripTokens]
    simp only [id_eq]
    split_ifs
    · rw [ih, List.map_append, List.map_singleton]
    · rw [List.map_append, List.map_cons, map_keepRun, ih, List.map_nil]

lemma map_kept (l : List α) : (kept ch l).map ch = kept id (l.map ch) := by
  unfold kept stripControls
  rw [← map_stripPaths, ← List.map_nil (f := ch), ← map_stripTokens, List.filter_map]
  rfl

/-! ### What is not to be shown -/

/-- A long token, a path of a drive, or the beginning of a share. -/
inductive Forbidden : List Char → Prop
  | token {run : List Char} (hlong : longTokenMin ≤ run.length)
    (hrun : ∀ c ∈ run, isTokenChar c = true) :
      Forbidden run
  | drive {a c : Char} (ha : a.isAlpha = true) (hc : isSlash c = true) : Forbidden [a, ':', c]
  | unc : Forbidden ['\\', '\\']

/-- A member that is there once stands in one place. -/
lemma split_unique {l u v v' : List α} (u' : List α) {x : α} (hl : l.Nodup) (h : l = u ++ x :: v)
    (h' : l = u' ++ x :: v') : v = v' := by
  subst h
  have hfree : ∀ {w w' : List α}, (w ++ x :: w').Nodup → x ∉ w ∧ x ∉ w' := fun hnodup =>
    ⟨fun hmem => (List.nodup_append.1 hnodup).2.2 x hmem x List.mem_cons_self rfl,
      (List.nodup_cons.1 (List.nodup_append.1 hnodup).2.1).1⟩
  exact ((List.append_cons_inj_of_notMem (hfree hl).1 (hfree hl).2).1 h').2.2

/-- **What stood together and is not to be shown is not kept.** -/
lemma not_consecutive {s : List Char} {piece : List (Char × ℕ)}
    (hsub : piece ⊆ kept Prod.fst s.zipIdx) (hpiece : Forbidden (piece.map Prod.fst)) :
    ¬Consecutive piece := by
  intro hcons
  have hpaths : (stripPaths Prod.fst false s.zipIdx).Sublist s.zipIdx := stripPaths_sublist false _
  have hordered := ordered_zipIdx s
  have hplace : ∀ x ∈ piece, ∃ u v, s.zipIdx = u ++ x :: v ∧ ¬StartsPath Prod.fst (x :: v) :=
    fun x hx =>
    exists_of_mem_stripPaths ((kept_sublist_paths _).subset (hsub hx))
  have hhere : piece <:+: s.zipIdx := infix_of_consecutive hordered hcons
    (List.Subset.trans hsub ((kept_sublist_paths _).trans hpaths).subset)
  obtain ⟨u', v', hwhole⟩ := hhere
  generalize htext : piece.map Prod.fst = text at hpiece
  cases hpiece with
  | token hlong hrun =>
    subst htext
    rw [List.length_map] at hlong
    cases piece with
    | nil => exact absurd hlong (by decide)
    | cons x piece =>
      rw [List.map_cons, List.forall_mem_cons] at hrun
      obtain ⟨w, w', hpart⟩ := infix_of_consecutive (hordered.sublist hpaths) hcons
        (List.Subset.trans hsub (kept_sublist_paths _).subset)
      obtain ⟨u, v, hsplit, hshort⟩ := @exists_of_mem_stripTokens _ Prod.fst _ _ _ (by simp)
        ((kept_sublist _).subset (hsub List.mem_cons_self)) hrun.1
      rw [List.nil_append] at hsplit
      obtain rfl : v = piece ++ w' := split_unique w (hordered.sublist hpaths).nodup hsplit
        (by rw [← hpart, List.append_assoc]; rfl)
      have hlen : piece.length ≤ ((piece ++ w').takeWhile fun a => isTokenChar a.1).length := by
        rw [List.takeWhile_append_of_pos fun a ha => hrun.2 a.1 (List.mem_map_of_mem ha),
          List.length_append]
        exact Nat.le_add_right _ _
      rw [tokenLength] at hshort
      rw [List.length_cons] at hlong
      omega
  | drive ha hc =>
    obtain ⟨x, rest, rfl, rfl, hrest⟩ := List.map_eq_cons_iff.1 htext
    obtain ⟨y, rest', rfl, hy, hrest'⟩ := List.map_eq_cons_iff.1 hrest
    obtain ⟨z, last, rfl, rfl, hlast⟩ := List.map_eq_cons_iff.1 hrest'
    obtain rfl := List.map_eq_nil_iff.1 hlast
    obtain ⟨u, v, hsplit, hstart⟩ := hplace x List.mem_cons_self
    obtain rfl : v = y :: z :: v' := split_unique u' hordered.nodup hsplit
      (by rw [← hwhole, List.append_assoc]; rfl)
    exact hstart (.drive v' ha hy hc)
  | unc =>
    obtain ⟨x, rest, rfl, hx, hrest⟩ := List.map_eq_cons_iff.1 htext
    obtain ⟨y, last, rfl, hy, hlast⟩ := List.map_eq_cons_iff.1 hrest
    obtain rfl := List.map_eq_nil_iff.1 hlast
    obtain ⟨u, v, hsplit, hstart⟩ := hplace x List.mem_cons_self
    obtain rfl : v = y :: v' := split_unique u' hordered.nodup hsplit
      (by rw [← hwhole, List.append_assoc]; rfl)
    exact hstart (.unc v' hx hy)

/-! ### What is shown -/

/-- A text that may be shown. -/
structure Clean (r : List Char) : Prop where
  small : byteLen r ≤ sanitizeMaxBytes + 3
  control : ∀ c ∈ r, Library.isControl c = false
  slash : '/' ∉ r
  forbidden : ∀ piece, piece <:+: r → ¬Forbidden piece

/-- What is shown of an input, and where each character stood in it. -/
def shownAt (s : List Char) : List (Char × ℕ) :=
  (kept Prod.fst s.zipIdx).take (shown (kept id s)).length

/-- **Taking something out brings together what is not to be shown.** -/
def Rejoins (s : List Char) : Prop :=
  ∃ piece, piece <:+: shownAt s ∧ Forbidden (piece.map Prod.fst) ∧ ¬Consecutive piece

lemma map_shownAt (s : List Char) : (shownAt s).map Prod.fst = shown (kept id s) := by
  rw [shownAt, List.map_take, map_kept, List.zipIdx_map_fst]
  exact (List.prefix_iff_eq_take.1 (shown_isPrefix _)).symm

/-- **What is not to be shown is shown where it was brought together**, and nowhere else. -/
lemma exists_forbidden_iff (s : List Char) :
    (∃ piece, piece <:+: shown (kept id s) ∧ Forbidden piece) ↔ Rejoins s := by
  rw [← map_shownAt]
  constructor
  · rintro ⟨piece, hpart, hpiece⟩
    obtain ⟨piece, hplaced, rfl⟩ := List.infix_map_iff.1 hpart
    have hsub : piece ⊆ kept Prod.fst s.zipIdx := fun x hx =>
      List.take_subset _ _ (hplaced.subset hx)
    exact ⟨piece, hplaced, hpiece, not_consecutive hsub hpiece⟩
  · rintro ⟨piece, hpart, hpiece, -⟩
    exact ⟨_, hpart.map Prod.fst, hpiece⟩

lemma eq_dot_of_mem {c : Char} (h : c ∈ "...".toList) : c = '.' := by
  have hdots : "...".toList = List.replicate 3 '.' := rfl
  exact List.eq_of_mem_replicate (hdots ▸ h)

/-- **Three dots behind a text** only make its last token longer. -/
lemma exists_forbidden_dots (l : List Char) :
    (∃ piece, piece <:+: l ++ "...".toList ∧ Forbidden piece) ↔
      (∃ piece, piece <:+: l ∧ Forbidden piece) ∨
        longTokenMin ≤ (l.rtakeWhile isTokenChar).length + 3 := by
  constructor
  · rintro ⟨piece, hpart, hpiece⟩
    rcases List.infix_append_iff.1 hpart with hpart | hpart | ⟨t, u, rfl, ht, hu⟩
    · exact .inl ⟨piece, hpart, hpiece⟩
    · have hall : ∀ c ∈ piece, c = '.' := fun c hc => eq_dot_of_mem (hpart.subset hc)
      have hlen : piece.length ≤ 3 := hpart.length_le
      cases hpiece with
      | token hlong _ =>
        rw [longTokenMin] at hlong
        omega
      | drive ha hc => exact absurd (hall ':' (by simp)) (by decide)
      | unc => exact absurd (hall '\\' (by simp)) (by decide)
    · have hall : ∀ c ∈ u, c = '.' := fun c hc => eq_dot_of_mem (hu.subset hc)
      have hlen : u.length ≤ 3 := hu.length_le
      generalize hwhole : t ++ u = piece at hpiece
      have hlast : ∀ c ∈ piece.getLast?, c ≠ '.' → u = [] := by
        intro c hc hne
        subst hwhole
        by_contra hu
        rw [List.getLast?_append_of_ne_nil _ hu] at hc
        exact hne (hall c (List.mem_of_getLast? hc))
      cases hpiece with
      | token hlong hrun =>
        subst hwhole
        refine .inr ?_
        have hsuffix : t <:+ l.rtakeWhile isTokenChar := by
          obtain ⟨front, rfl⟩ := ht
          rw [List.rtakeWhile, List.reverse_append, List.takeWhile_append_of_pos (by
            simpa using fun c hc => hrun c (List.mem_append_left _ hc)), List.reverse_append,
            List.reverse_reverse]
          exact List.suffix_append _ _
        have := hsuffix.length_le
        rw [List.length_append] at hlong
        omega
      | @drive a c ha hc =>
        obtain rfl := hlast c rfl (by rintro rfl; exact absurd hc (by decide))
        rw [List.append_nil] at hwhole
        exact .inl ⟨_, hwhole ▸ ht.isInfix, .drive ha hc⟩
      | unc =>
        obtain rfl := hlast '\\' rfl (by decide)
        rw [List.append_nil] at hwhole
        exact .inl ⟨_, hwhole ▸ ht.isInfix, .unc⟩
  · rintro (⟨piece, hpart, hpiece⟩ | hlong)
    · exact ⟨piece, hpart.trans (List.prefix_append _ _).isInfix, hpiece⟩
    · refine ⟨l.rtakeWhile isTokenChar ++ "...".toList, ?_, .token ?_ ?_⟩
      · obtain ⟨front, hfront⟩ := List.rtakeWhile_suffix isTokenChar l
        refine ⟨front, [], ?_⟩
        rw [List.append_nil, ← List.append_assoc, hfront]
      · rw [List.length_append]
        exact hlong
      · intro c hc
        rcases List.mem_append.1 hc with hc | hc
        · exact List.mem_rtakeWhile_imp hc
        · rw [eq_dot_of_mem hc]
          rfl

lemma mem_of_mem_shown {s : List Char} {c : Char} (h : c ∈ shown s) : c ∈ s :=
  (shown_isPrefix s).subset h

/-- What is shown is clean but for what was brought together. -/
lemma clean_iff {s tail : List Char} (hlen : byteLen tail ≤ 3)
    (htail : ∀ c ∈ tail, c = '.') : Clean (shown (kept id s) ++ tail) ↔
      ∀ piece, piece <:+: shown (kept id s) ++ tail → ¬Forbidden piece := by
  refine ⟨Clean.forbidden, fun hforbidden => ⟨?_, ?_, ?_, hforbidden⟩⟩
  · have := byteLen_shown (kept id s)
    rw [byteLen_append]
    omega
  · intro c hc
    rcases List.mem_append.1 hc with hc | hc
    · exact control_not_mem_kept (mem_of_mem_shown hc)
    · rw [htail c hc]
      rfl
  · intro hc
    rcases List.mem_append.1 hc with hc | hc
    · exact slash_not_mem_kept (mem_of_mem_shown hc) rfl
    · exact absurd (htail _ hc) (by decide)

/-- **When an error message is shown clean**: nothing taken out joins what is not to be shown, the
cut ends among characters of one byte, and the dots make no token long. -/
theorem message_clean_iff (s : List Char) :
    (∃ r, sanitizeErrorMessage s = some r ∧ Clean r) ↔
      ¬Rejoins s ∧ (sanitizeMaxBytes < byteLen (kept id s) →
        AsciiEnd (kept id s) ∧ ((shown (kept id s)).rtakeWhile isTokenChar).length + 3 <
          longTokenMin) := by
  rw [sanitizeErrorMessage, truncate_eq, ← exists_forbidden_iff]
  have hnone : ∀ {l : List Char}, (∀ piece, piece <:+: l → ¬Forbidden piece) ↔
      ¬∃ piece, piece <:+: l ∧ Forbidden piece := fun {l} => by simp only [not_exists, not_and]
  by_cases hlong : sanitizeMaxBytes < byteLen (kept id s)
  · rw [if_pos hlong, forall_prop_of_true hlong]
    by_cases hascii : AsciiEnd (kept id s)
    · have hclean := @clean_iff s "...".toList le_rfl fun c => eq_dot_of_mem
      rw [hnone, exists_forbidden_dots, not_or, not_le] at hclean
      rw [if_pos hascii]
      simp only [Option.some.injEq, exists_eq_left', hascii, true_and, hclean]
    · rw [if_neg hascii]
      simp only [reduceCtorEq, false_and, exists_false, hascii, and_false]
  · have hclean := @clean_iff s [] (by decide) (by simp)
    rw [List.append_nil, hnone] at hclean
    rw [if_neg hlong, forall_prop_of_false hlong]
    simp only [Option.some.injEq, exists_eq_left', hclean, and_true]

/-- A control character splits a drive from its path, and 129 times the same letter is cut inside a
character. -/
theorem message_not_clean :
    sanitizeErrorMessage "C\x01:\\foo".toList = some "C:\\foo".toList ∧
      ¬Clean "C:\\foo".toList ∧ sanitizeErrorMessage (List.replicate 129 'é') = none := by
  refine ⟨by decide +kernel, fun hclean => ?_, by decide +kernel⟩
  exact hclean.forbidden ['C', ':', '\\'] ⟨[], ['f', 'o', 'o'], by decide⟩
    (.drive (by decide) (by decide))

end Locast.Transfer.Messages
