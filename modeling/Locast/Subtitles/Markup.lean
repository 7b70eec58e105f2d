import Locast.Subtitles.Scans
import Mathlib.Data.List.DropRight

/-!
# What markup is taken out

The scans look ahead at most once for each kind of opener, and jump behind what they have found.
Here is what they do in terms of the text alone, and that the two agree.
-/

namespace Locast.Subtitles

open Locast.Lib

/-! ### Tags -/

/-- What closes a tag of WebVTT, by its opener. -/
def angles : Char → Option Char
  | '<' => some '>'
  | _ => none

/-- What closes a tag of SRT. -/
def anglesAndBraces : Char → Option Char
  | '<' => some '>'
  | '{' => some '}'
  | _ => none

/-- **Tags, by definition**: an opener goes with everything up to the first closer behind it, and
stays as it is where there is none. -/
def stripped (closerOf : Char → Option Char) : List Char → List Char
  | [] => []
  | c :: rest =>
    match closerOf c with
    | none => if isDroppedChar c then stripped closerOf rest else c :: stripped closerOf rest
    | some closer =>
      if closer ∈ rest then stripped closerOf (behind closer rest) else c :: stripped closerOf rest
termination_by s => s.length
decreasing_by
  · exact Nat.lt_succ_self _
  · exact Nat.lt_succ_self _
  · exact Nat.lt_succ_of_le (length_behind _ _)
  · exact Nat.lt_succ_self _

section

variable {closerOf : Char → Option Char}

/-- The characters before the end of a jump are passed over. -/
lemma scanTags_skip (line t rest : List Char) {i k : ℕ} (gaveUp out : List Char)
    (hk : i + byteLen t ≤ k) : scanTags closerOf line (t ++ rest) i k gaveUp out =
      scanTags closerOf line rest (i + byteLen t) k gaveUp out := by
  induction t generalizing i with
  | nil => rfl
  | cons c t ih =>
    have hpos := c.utf8Size_pos
    rw [byteLen_cons] at hk
    rw [List.cons_append, scanTags, if_pos (by omega), ih (by omega), byteLen_cons, Nat.add_assoc]

/-- **The scan agrees with the definition** from every place on; what was given up is not ahead. -/
lemma scanTags_stripped (hopen : ∀ c p, closerOf c = some p → c.utf8Size = 1 ∧ p.utf8Size = 1)
    (before rest : List Char) {k : ℕ} {gaveUp : List Char} (out : List Char)
    (hk : k ≤ byteLen before)
    (hgave : ∀ p ∈ gaveUp, p ∉ rest) :
    scanTags closerOf (before ++ rest) rest (byteLen before) k gaveUp out =
      .ok (out ++ stripped closerOf rest) := by
  induction hn : rest.length using Nat.strong_induction_on
    generalizing before rest k gaveUp out with
  | _ n ih =>
    cases rest with
    | nil => rw [scanTags, stripped, List.append_nil]
    | cons c rest =>
      have hnext : byteLen before + c.utf8Size = byteLen (before ++ [c]) := by simp
      have hline : before ++ c :: rest = before ++ [c] ++ rest := by simp
      have hrest : ∀ {k gaveUp} (out), k ≤ byteLen (before ++ [c]) → (∀ p ∈ gaveUp, p ∉ rest) →
          scanTags closerOf (before ++ [c] ++ rest) rest (byteLen (before ++ [c])) k gaveUp out =
            .ok (out ++ stripped closerOf rest) := fun out hk hgave =>
        ih rest.length (by rw [← hn]; exact Nat.lt_succ_self _)
          (before ++ [c]) rest out hk hgave rfl
      have hk' : k ≤ byteLen (before ++ [c]) :=
        hk.trans (by rw [← hnext]; exact Nat.le_add_right _ _)
      have hgave' : ∀ p ∈ gaveUp, p ∉ rest := fun p hp hmem =>
        hgave p hp (List.mem_cons_of_mem _ hmem)
      rw [scanTags, if_neg (by omega), stripped, hnext, hline]
      cases hcloser : closerOf c with
      | none =>
        dsimp only
        rw [hrest _ hk' hgave']
        split_ifs
        · rfl
        · rw [List.append_assoc, List.singleton_append]
      | some closer =>
        have hkeep : ∀ gaveUp' : List Char, (∀ p ∈ gaveUp', p ∉ rest) →
            scanTags closerOf (before ++ [c] ++ rest) rest (byteLen (before ++ [c])) k gaveUp'
              (out ++ [c]) = .ok (out ++ c :: stripped closerOf rest) := fun gaveUp' hgave => by
          rw [hrest _ hk' hgave, List.append_assoc, List.singleton_append]
        have hafter : getFrom (before ++ [c] ++ rest) (byteLen before + 1) = some rest := by
          rw [← (hopen c closer hcloser).1, hnext, getFrom_append]
        dsimp only
        by_cases hgiven : closer ∈ gaveUp
        · rw [if_pos hgiven, hkeep _ hgave', if_neg (hgave' closer hgiven)]
        rw [if_neg hgiven, hafter, sliced_some_bind, find_eq]
        by_cases hfound : closer ∈ rest
        · -- the jump, and the scan from behind the closer on
          have hparts : rest = ahead closer rest ++ [closer] ++ behind closer rest := by
            rw [List.append_assoc]
            exact (ahead_append_behind hfound).symm
          have hshort := length_behind closer rest
          rw [if_pos hfound, if_pos hfound]
          dsimp only
          generalize ahead closer rest = t at hparts ⊢
          generalize behind closer rest = u at hparts hshort ⊢
          subst hparts
          have hjump : byteLen before + 1 + byteLen t + 1 =
              byteLen (before ++ [c]) + byteLen (t ++ [closer]) := by
            rw [← hnext, (hopen c closer hcloser).1, byteLen_append, byteLen_cons, byteLen_nil,
              (hopen c closer hcloser).2]
            omega
          have hlater := ih u.length (by rw [← hn]; exact Nat.lt_succ_of_le hshort)
            (before ++ [c] ++ (t ++ [closer])) u out le_rfl
            (fun p hp hmem => hgave' p hp (List.mem_append_right _ hmem)) rfl
          rw [hjump, scanTags_skip _ _ _ _ _ le_rfl, ← byteLen_append, ← List.append_assoc]
          exact hlater
        · rw [if_neg hfound, if_neg hfound]
          dsimp only
          exact hkeep _ (List.forall_mem_cons.2 ⟨hfound, hgave'⟩)

end

lemma Srt.closerOf_eq : Srt.closerOf = anglesAndBraces := by
  funext c
  by_cases hangle : c = '<'
  · subst hangle
    rfl
  by_cases hbrace : c = '{'
  · subst hbrace
    rfl
  simp [Srt.closerOf, anglesAndBraces, hangle, hbrace]

lemma Vtt.closerOf_eq : Vtt.closerOf = angles := by
  funext c
  by_cases hangle : c = '<'
  · subst hangle
    rfl
  simp [Vtt.closerOf, angles, hangle]

lemma angles_size {c p : Char} (h : angles c = some p) : c.utf8Size = 1 ∧ p.utf8Size = 1 := by
  unfold angles at h
  split at h <;> cases h
  exact ⟨rfl, rfl⟩

lemma anglesAndBraces_size {c p : Char} (h : anglesAndBraces c = some p) :
    c.utf8Size = 1 ∧ p.utf8Size = 1 := by
  unfold anglesAndBraces at h
  split at h <;> cases h <;> exact ⟨rfl, rfl⟩

lemma Srt.stripTags_eq_stripped (line : List Char) :
    Srt.stripTags line = .ok (stripped anglesAndBraces line) := by
  rw [Srt.stripTags, Srt.closerOf_eq]
  exact scanTags_stripped (fun _ _ => anglesAndBraces_size) [] line [] le_rfl (by simp)

lemma Vtt.stripTags_eq_stripped (line : List Char) :
    Vtt.stripTags line = .ok (stripped angles line) := by
  rw [Vtt.stripTags, Vtt.closerOf_eq]
  exact scanTags_stripped (fun _ _ => angles_size) [] line [] le_rfl (by simp)

/-! ### Entities -/

/-- What the entity stands for that a text begins with, and what is behind it. -/
def entityAt : List Char → Option (List Char × List Char)
  | '&' :: 'a' :: 'm' :: 'p' :: ';' :: after => some (['&'], after)
  | '&' :: 'l' :: 't' :: ';' :: after => some (['<'], after)
  | '&' :: 'g' :: 't' :: ';' :: after => some (['>'], after)
  | '&' :: 'n' :: 'b' :: 's' :: 'p' :: ';' :: after => some ([' '], after)
  | '&' :: 'l' :: 'r' :: 'm' :: ';' :: after => some ([], after)
  | '&' :: 'r' :: 'l' :: 'm' :: ';' :: after => some ([], after)
  | _ => none

lemma entityAt_eq_some {s text after : List Char} (h : entityAt s = some (text, after)) :
    ∃ name, s = '&' :: name ++ after ∧ Vtt.matchEntity s = some (byteLen ('&' :: name), text) := by
  unfold entityAt at h
  split at h <;> cases h
  · exact ⟨['a', 'm', 'p', ';'], rfl, rfl⟩
  · exact ⟨['l', 't', ';'], rfl, rfl⟩
  · exact ⟨['g', 't', ';'], rfl, rfl⟩
  · exact ⟨['n', 'b', 's', 'p', ';'], rfl, rfl⟩
  · exact ⟨['l', 'r', 'm', ';'], rfl, rfl⟩
  · exact ⟨['r', 'l', 'm', ';'], rfl, rfl⟩

lemma length_entityAt {s text after : List Char} (h : entityAt s = some (text, after)) :
    after.length < s.length := by
  obtain ⟨name, rfl, -⟩ := entityAt_eq_some h
  rw [List.length_append, List.length_cons]
  omega

/-- Where no entity is, the table has none. -/
lemma Vtt.matchEntity_eq_none {s : List Char} (h : entityAt s = none) :
    Vtt.matchEntity s = none := by
  refine Option.map_eq_none_iff.2 (List.find?_eq_none.2 fun entity hmem hprefix => ?_)
  obtain ⟨after, rfl⟩ := List.isPrefixOf_iff_prefix.1 hprefix
  simp only [Vtt.entities, List.mem_cons, List.not_mem_nil, or_false] at hmem
  obtain rfl | rfl | rfl | rfl | rfl | rfl := hmem <;> cases h

/-- **Entities, by definition**: from left to right, each is replaced, and what replaces it is not
read again. -/
def decoded : List Char → List Char
  | [] => []
  | c :: rest =>
    match _ : entityAt (c :: rest) with
    | some (text, after) => text ++ decoded after
    | none => c :: decoded rest
termination_by s => s.length
decreasing_by
  · exact length_entityAt ‹_›
  · exact Nat.lt_succ_self _

lemma decoded_of_some {c : Char} {rest text after : List Char}
    (h : entityAt (c :: rest) = some (text, after)) :
    decoded (c :: rest) = text ++ decoded after := by
  rw [decoded]
  split
  · rename_i heq
    cases h.symm.trans heq
    rfl
  · rename_i heq
    cases h.symm.trans heq

lemma decoded_of_none {c : Char} {rest : List Char} (h : entityAt (c :: rest) = none) :
    decoded (c :: rest) = c :: decoded rest := by
  rw [decoded]
  split
  · rename_i heq
    cases h.symm.trans heq
  · rfl

lemma Vtt.scanEntities_skip (line t rest : List Char) {i k : ℕ} (out : List Char)
    (hk : i + byteLen t ≤ k) : Vtt.scanEntities line (t ++ rest) i k out =
      Vtt.scanEntities line rest (i + byteLen t) k out := by
  induction t generalizing i with
  | nil => rfl
  | cons c t ih =>
    have hpos := c.utf8Size_pos
    rw [byteLen_cons] at hk
    rw [List.cons_append, Vtt.scanEntities, if_pos (by omega), ih (by omega), byteLen_cons,
      Nat.add_assoc]

/-- **The scan agrees with the definition** from every place on. -/
lemma Vtt.scanEntities_decoded (before rest : List Char) {k : ℕ} (out : List Char)
    (hk : k ≤ byteLen before) :
    Vtt.scanEntities (before ++ rest) rest (byteLen before) k out = .ok (out ++ decoded rest) := by
  induction hn : rest.length using Nat.strong_induction_on generalizing before rest k out with
  | _ n ih =>
    cases rest with
    | nil => rw [Vtt.scanEntities, decoded, List.append_nil]
    | cons c rest =>
      have hnext : byteLen before + c.utf8Size = byteLen (before ++ [c]) := by simp
      have hline : before ++ c :: rest = before ++ [c] ++ rest := by simp
      have hk' : k ≤ byteLen (before ++ [c]) :=
        hk.trans (by rw [← hnext]; exact Nat.le_add_right _ _)
      have hkeep : Vtt.scanEntities (before ++ [c] ++ rest) rest (byteLen (before ++ [c])) k
          (out ++ [c]) = .ok (out ++ c :: decoded rest) := by
        rw [ih rest.length (by rw [← hn]; exact Nat.lt_succ_self _) (before ++ [c]) rest _ hk' rfl,
          List.append_assoc, List.singleton_append]
      have hhere : getFrom (before ++ [c] ++ rest) (byteLen before) = some (c :: rest) := by
        rw [← hline, getFrom_append]
      rw [Vtt.scanEntities, if_neg (by omega), hnext, hline, hhere, sliced_some_bind]
      cases hentity : entityAt (c :: rest) with
      | none =>
        rw [Vtt.matchEntity_eq_none hentity, decoded_of_none hentity]
        dsimp only
        rw [hkeep, ite_self]
      | some found =>
        obtain ⟨text, after⟩ := found
        obtain ⟨name, hsplit, hmatch⟩ := entityAt_eq_some hentity
        rw [hmatch, decoded_of_some hentity]
        rw [List.cons_append] at hsplit
        obtain ⟨rfl, rfl⟩ := List.cons.inj hsplit
        have hjump : byteLen before + byteLen ('&' :: name) =
            byteLen (before ++ ['&']) + byteLen name := by
          rw [byteLen_append, byteLen_cons, byteLen_cons, byteLen_nil]
          omega
        have hlater := ih after.length (by
            rw [← hn, List.length_cons, List.length_append]
            omega) (before ++ ['&'] ++ name) after (out ++ text) le_rfl rfl
        rw [if_pos rfl]
        dsimp only
        rw [hjump, Vtt.scanEntities_skip _ _ _ _ le_rfl, ← byteLen_append, ← List.append_assoc,
          ← List.append_assoc]
        exact hlater

lemma Vtt.decodeEntities_eq_decoded (line : List Char) :
    Vtt.decodeEntities line = .ok (decoded line) :=
  Vtt.scanEntities_decoded [] line [] le_rfl

/-! ### Drawing -/

/-- The block switches drawing on: `\\p`, zeros, and another digit. -/
def Ass.TurnsDrawingOn (body : List Char) : Prop :=
  ∃ before zeros d after, body = before ++ '\\' :: 'p' :: (zeros ++ d :: after) ∧
    (∀ z ∈ zeros, z = '0') ∧ d.isDigit = true ∧ d ≠ '0'

lemma Ass.startsNonzero_iff {s : List Char} : Ass.startsNonzero s = true ↔
    ∃ zeros d after, s = zeros ++ d :: after ∧ (∀ z ∈ zeros, z = '0') ∧ d.isDigit = true ∧
      d ≠ '0' := by
  rw [Ass.startsNonzero]
  constructor
  · intro hany
    obtain ⟨d, after, hafter, hdigit⟩ :
        ∃ d after, s.dropWhile (· = '0') = d :: after ∧ d.isDigit = true := by
      cases hdrop : s.dropWhile (· = '0') with
      | nil => simp [hdrop] at hany
      | cons d after => exact ⟨d, after, rfl, by simpa [hdrop] using hany⟩
    refine ⟨s.takeWhile (· = '0'), d, after, ?_, ?_, hdigit, ?_⟩
    · rw [← hafter, List.takeWhile_append_dropWhile]
    · intro z hz
      simpa using List.mem_takeWhile_imp hz
    · have hne : s.dropWhile (· = '0') ≠ [] := by simp [hafter]
      have hfirst := List.head_dropWhile_not (fun c => decide (c = '0')) hne
      simpa [hafter] using hfirst
  · rintro ⟨zeros, d, after, rfl, hzeros, hdigit, hd⟩
    have hdrop : (zeros ++ d :: after).dropWhile (· = '0') = d :: after :=
      dropWhile_append_of_forall (by simpa using hzeros) (by simpa using hd)
    rw [hdrop]
    exact hdigit

lemma mem_matchIndices {a b : Char} (hab : a ≠ b) (t u : List Char) (i : ℕ) :
    i + byteLen t ∈ matchIndices a b (t ++ a :: b :: u) i := by
  induction hn : t.length using Nat.strong_induction_on generalizing t i with
  | _ n ih =>
    match t with
    | [] =>
      rw [List.nil_append, matchIndices, if_pos ⟨rfl, rfl⟩]
      exact List.mem_cons_self
    | [c] =>
      have hno : ¬(c = a ∧ a = b) := fun h => hab h.2
      have hnext := ih 0 (by rw [← hn]; exact Nat.zero_lt_one) [] (i + c.utf8Size) rfl
      rw [List.singleton_append, matchIndices, if_neg hno]
      exact hnext
    | c :: d :: t =>
      rw [List.cons_append, List.cons_append, matchIndices]
      split_ifs
      · have hnext := ih t.length (by rw [← hn, List.length_cons, List.length_cons]; omega) t
          (i + c.utf8Size + d.utf8Size) rfl
        rw [byteLen_cons, byteLen_cons, ← Nat.add_assoc, ← Nat.add_assoc]
        exact List.mem_cons_of_mem _ hnext
      · have hnext := ih (t.length + 1) (by rw [← hn, List.length_cons, List.length_cons]; omega)
          (d :: t)
          (i + c.utf8Size) rfl
        rw [byteLen_cons, ← Nat.add_assoc]
        exact hnext

/-- **Drawing is found where it is switched on.** -/
lemma Ass.draws_iff {body : List Char} : Ass.draws body = true ↔ Ass.TurnsDrawingOn body := by
  have hdraws : Ass.draws body =
      (matchIndices '\\' 'p' body 0).any fun i => (getFrom body (i + 2)).any Ass.startsNonzero := by
    rw [Ass.draws, Ass.enablesDrawing_eq_any]
    rfl
  rw [hdraws, List.any_eq_true]
  constructor
  · rintro ⟨i, hi, hany⟩
    obtain ⟨before, after, rfl, rfl⟩ := exists_of_mem_matchIndices hi
    rw [Nat.zero_add, Ass.getFrom_behind, Option.any_some] at hany
    obtain ⟨zeros, d, after, rfl, h⟩ := Ass.startsNonzero_iff.1 hany
    exact ⟨before, zeros, d, after, rfl, h⟩
  · rintro ⟨before, zeros, d, after, rfl, h⟩
    refine ⟨_, mem_matchIndices (by decide) before _ 0, ?_⟩
    rw [Nat.zero_add, Ass.getFrom_behind, Option.any_some]
    exact Ass.startsNonzero_iff.2 ⟨zeros, d, after, rfl, h⟩

/-! ### Text -/

def Ass.Piece.text : Ass.Piece → List Char
  | .shown s => s
  | .override _ => []

/-- The text outside the blocks, without dropped characters. -/
def Ass.shownText (pieces : List Ass.Piece) : List Char :=
  (pieces.flatMap Ass.Piece.text).filter fun c => !isDroppedChar c

variable {caps : Caps}

/-- What is pushed stays if it fits. -/
lemma pushCueText_filter {buf : List Char} (hbuf : byteLen buf ≤ caps.maxCueTextBytes)
    (piece : List Char) (line : ℕ) : pushCueText caps buf piece line =
      if byteLen (buf ++ piece.filter fun c => !isDroppedChar c) ≤ caps.maxCueTextBytes then
        .ok (buf ++ piece.filter fun c => !isDroppedChar c)
      else .error (.cueTooLong line) := by
  induction piece generalizing buf with
  | nil => rw [pushCueText, List.filter_nil, List.append_nil, if_pos hbuf]
  | cons c piece ih =>
    rw [pushCueText, pushCueChar]
    by_cases hdrop : isDroppedChar c = true
    · rw [if_pos hdrop, List.filter_cons_of_neg (by simp [hdrop])]
      exact ih hbuf
    · rw [if_neg hdrop, List.filter_cons_of_pos (by simp [hdrop])]
      by_cases hfits : byteLen buf + c.utf8Size ≤ caps.maxCueTextBytes
      · rw [if_pos hfits]
        have hmore := @ih (buf ++ [c]) (by simpa using hfits)
        rw [List.append_assoc, List.singleton_append] at hmore
        exact hmore
      · rw [if_neg hfits, if_neg]
        · rfl
        · rw [byteLen_append, byteLen_cons]
          omega

lemma Ass.cleaned_foldl_error (line : ℕ) (pieces : List Ass.Piece) (buf : List Char)
    (e : SubtitleError) :
    Ass.cleaned (pieces.foldl (Ass.noteShown caps line) (buf, some e)) = reject e := by
  induction pieces with
  | nil => rfl
  | cons piece pieces ih => cases piece <;> exact ih

/-- **The pieces are joined**, if they fit. -/
lemma Ass.cleaned_foldl {buf : List Char} (hbuf : byteLen buf ≤ caps.maxCueTextBytes) (line : ℕ)
    (pieces : List Ass.Piece) : Ass.cleaned (pieces.foldl (Ass.noteShown caps line) (buf, none)) =
      if byteLen (buf ++ Ass.shownText pieces) ≤ caps.maxCueTextBytes then
        .ok (some (buf ++ Ass.shownText pieces))
      else reject (.cueTooLong line) := by
  induction pieces generalizing buf with
  | nil =>
    have hnil : Ass.shownText [] = [] := rfl
    rw [hnil, List.append_nil, if_pos hbuf]
    rfl
  | cons piece pieces ih =>
    cases piece with
    | override body => exact ih hbuf
    | shown s =>
      have hcons : Ass.shownText (.shown s :: pieces) =
          (s.filter fun c => !isDroppedChar c) ++ Ass.shownText pieces := by
        rw [Ass.shownText, List.flatMap_cons, List.filter_append]
        rfl
      rw [List.foldl_cons, Ass.noteShown, pushCueText_filter hbuf, hcons, ← List.append_assoc]
      split_ifs with hfits hall hall
      · rw [Ass.note, ih hfits, if_pos hall]
      · rw [Ass.note, ih hfits, if_neg hall]
      · rw [byteLen_append] at hall
        exact absurd ((Nat.le_add_right _ _).trans hall) hfits
      · exact Ass.cleaned_foldl_error line pieces buf _

/-- **What is left of an event's text.** -/
lemma Ass.cleanText_eq_pieces (raw : List Char) (line : ℕ) : Ass.cleanText caps raw line =
    if (Ass.pieces raw).any Ass.Piece.draws then .ok none
    else if byteLen (Ass.shownText (Ass.pieces raw)) ≤ caps.maxCueTextBytes then
      .ok (some (Ass.shownText (Ass.pieces raw)))
    else reject (.cueTooLong line) := by
  rw [Ass.cleanText_eq_runPieces, Ass.runPieces_eq, Ass.cleaned_foldl (Nat.zero_le _),
    List.nil_append]

/-- An override block of the text switches drawing on. -/
def Ass.Draws (raw : List Char) : Prop :=
  ∃ body, .override body ∈ Ass.pieces raw ∧ Ass.TurnsDrawingOn body

lemma Ass.any_draws_iff {raw : List Char} : (Ass.pieces raw).any Ass.Piece.draws = true ↔
    Ass.Draws raw := by
  rw [List.any_eq_true]
  constructor
  · rintro ⟨_ | body, hmem, hdraws⟩
    · cases hdraws
    · exact ⟨body, hmem, Ass.draws_iff.1 hdraws⟩
  · rintro ⟨body, hmem, hdraws⟩
    exact ⟨_, hmem, Ass.draws_iff.2 hdraws⟩

/-- **Markup is taken out as it is defined**: tags, entities and override blocks, on every line; and
every scan stands at the ends of characters and goes on. -/
theorem markup_grammar (line : List Char) :
    (Srt.stripTags line = .ok (stripped anglesAndBraces line) ∧
      Vtt.stripTags line = .ok (stripped angles line)) ∧
    Vtt.decodeEntities line = .ok (decoded line) ∧
    (∀ number, (Ass.cleanText limits line number = .ok none ↔ Ass.Draws line) ∧
      (¬Ass.Draws line → Ass.cleanText limits line number =
        if byteLen (Ass.shownText (Ass.pieces line)) ≤ limits.maxCueTextBytes then
          .ok (some (Ass.shownText (Ass.pieces line)))
        else reject (.cueTooLong number))) ∧
    (∀ closerOf ∈ [Srt.closerOf, Vtt.closerOf], IsScan line TagScan.i TagScan.skipUntil
      (TagScan.turn closerOf line) (TagScan.run closerOf line) (TagScan.start line)) ∧
    IsScan line EntityScan.i EntityScan.skipUntil (EntityScan.turn line) (EntityScan.run line)
      (EntityScan.start line) ∧
    ∀ number, IsScan line CleanScan.pos CleanScan.pos (CleanScan.turn limits line number)
      (CleanScan.run limits line number) CleanScan.start := by
  refine ⟨⟨Srt.stripTags_eq_stripped line, Vtt.stripTags_eq_stripped line⟩,
    Vtt.decodeEntities_eq_decoded line, fun number => ⟨?_, fun hdraws => ?_⟩, fun closerOf hmem =>
      TagScan.isScan ?_, EntityScan.isScan,
    fun number => CleanScan.isScan⟩
  · rw [Ass.cleanText_eq_pieces, ← Ass.any_draws_iff]
    split_ifs with hany hfits
    · exact ⟨fun _ => hany, fun _ => rfl⟩
    · exact ⟨fun h => (by cases h), fun h => absurd h hany⟩
    · exact ⟨fun h => (by cases h), fun h => absurd h hany⟩
  · rw [Ass.cleanText_eq_pieces, if_neg (mt Ass.any_draws_iff.1 hdraws)]
  · simp only [List.mem_cons, List.not_mem_nil, or_false] at hmem
    obtain rfl | rfl := hmem
    · rw [Srt.closerOf_eq]
      exact fun c p h => (anglesAndBraces_size h).2
    · rw [Vtt.closerOf_eq]
      exact fun c p h => (angles_size h).2

/-- A position is taken out, and a line break is kept. -/
theorem markup_grammar_position :
    ¬Ass.Draws ['{', '\\', 'a', 'n', '8', '}', 'a', '\\', 'N', 'é'] ∧
      Ass.cleanText limits ['{', '\\', 'a', 'n', '8', '}', 'a', '\\', 'N', 'é'] 7 =
        .ok (some ['a', '\n', 'é']) := by
  have hpieces : Ass.pieces ['{', '\\', 'a', 'n', '8', '}', 'a', '\\', 'N', 'é'] =
      [.override ['\\', 'a', 'n', '8'], .shown ['a'], .shown ['\n'], .shown ['é']] := by
    simp [Ass.pieces, ahead, behind, Ass.escaped]
  have hdraws : ¬Ass.Draws ['{', '\\', 'a', 'n', '8', '}', 'a', '\\', 'N', 'é'] := by
    rw [← Ass.any_draws_iff, hpieces]
    decide
  refine ⟨hdraws, ?_⟩
  rw [((markup_grammar _).2.2.1 7).2 hdraws, hpieces]
  rfl

/-- The text outside the blocks, as it stands. -/
def Ass.outsideBlocks (raw : List Char) : List Char := (Ass.pieces raw).flatMap Ass.Piece.text

/-- A text without markup is all outside. -/
lemma Ass.pieces_plain (raw : List Char) (h : ∀ c ∈ raw, c ≠ '{' ∧ c ≠ '\\') :
    ¬Ass.Draws raw ∧ Ass.outsideBlocks raw = raw := by
  have hpieces : Ass.pieces raw = raw.map fun c => .shown [c] := by
    induction raw with
    | nil => rw [Ass.pieces, List.map_nil]
    | cons c raw ih =>
      obtain ⟨hopen, hescape⟩ := h c List.mem_cons_self
      rw [Ass.pieces, if_neg hopen, if_neg hescape, ih fun d hd => h d (List.mem_cons_of_mem _ hd),
        List.map_cons]
  constructor
  · rintro ⟨body, hmem, -⟩
    rw [hpieces] at hmem
    obtain ⟨c, -, hc⟩ := List.mem_map.1 hmem
    cases hc
  · rw [Ass.outsideBlocks, hpieces, List.flatMap_map]
    exact List.flatMap_singleton' raw

/-- A character that reverses the text is dropped, and a text that is too long is an error. -/
theorem not_returned_as_is :
    (¬Ass.Draws ['\u202e', 'a'] ∧ Ass.outsideBlocks ['\u202e', 'a'] = ['\u202e', 'a'] ∧
      Ass.cleanText limits ['\u202e', 'a'] 1 = .ok (some ['a'])) ∧
    ¬Ass.Draws (List.replicate 8193 'a') ∧ Ass.outsideBlocks (List.replicate 8193 'a') =
      List.replicate 8193 'a' ∧ Ass.cleanText limits (List.replicate 8193 'a') 1 =
      reject (.cueTooLong 1) := by
  have htext : ∀ raw : List Char, Ass.shownText (Ass.pieces raw) =
      (Ass.outsideBlocks raw).filter fun c => !isDroppedChar c := fun _ => rfl
  obtain ⟨hshort, hshort'⟩ := Ass.pieces_plain ['\u202e', 'a'] (by simp)
  obtain ⟨hlong, hlong'⟩ := Ass.pieces_plain (List.replicate 8193 'a') fun c hc => by
    rw [List.eq_of_mem_replicate hc]
    decide
  refine ⟨⟨hshort, hshort', ?_⟩, hlong, hlong', ?_⟩
  · have hkept : Ass.shownText (Ass.pieces ['\u202e', 'a']) = ['a'] := by
      rw [htext, hshort']
      rfl
    rw [Ass.cleanText_eq_pieces, if_neg (mt Ass.any_draws_iff.1 hshort), hkept]
    rfl
  · have hkept : Ass.shownText (Ass.pieces (List.replicate 8193 'a')) =
        List.replicate 8193 'a' := by
      rw [htext, hlong', List.filter_replicate]
      rfl
    have hbytes : byteLen (List.replicate 8193 'a') = 8193 := by
      rw [byteLen, List.map_replicate, List.sum_replicate]
      rfl
    rw [Ass.cleanText_eq_pieces, if_neg (mt Ass.any_draws_iff.1 hlong), hkept, hbytes]
    rfl

end Locast.Subtitles
