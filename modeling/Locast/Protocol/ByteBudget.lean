import Locast.Protocol.Pushes
import Locast.Protocol.SplitManifest
import Mathlib.Data.List.Induction

/-!
# Assemblers that share a budget (`ByteBudget`)

Any number of assemblers, each with an owner that makes one call after the other.  The owners move
in any order, and share the counter of the budget: a step is one atomic operation on it (`load`,
`compare_exchange`, and the `fetch_sub` of a reservation that is dropped) or what an owner does by
itself between two of them.
-/

namespace Locast.Protocol

open Locast.Lib

variable {crates : PartCrates} {cap : ℕ}

/-! ### Steps -/

/-- The calls of the owner of an assembler. -/
inductive PartCall where
  | push (p : PartPush)
  | expire (now : ℕ)
  | clear
  | drop

/-- Where the owner is: within `reserve` before its load, before its exchange with the value seen
last, or with the reservation made. -/
inductive PartPhase where
  | idle
  | loading (p : PartPush) (piece : List UInt8)
  | exchanging (p : PartPush) (piece : List UInt8) (cur : ℕ)
  | reserved (p : PartPush) (piece : List UInt8)
  | returning (result : Option Pushed)
  | gone

/-- An assembler and where its owner is. -/
structure PartOwner where
  asm : PartAssembler
  phase : PartPhase

/-- The counter and the assemblers. -/
structure PartOwners where
  used : ℕ
  owners : List PartOwner

/-- What an owner can do. -/
inductive PartMove where
  | new (maxConcurrent ttl : ℕ)
  | call (k : ℕ) (c : PartCall)
  /-- The next reservation is dropped. -/
  | release (k : ℕ)
  | load (k : ℕ)
  | compareExchange (k : ℕ)
  | begin (k : ℕ)
  | ret (k : ℕ)

/-- The value `reserve` tries to store. -/
def reserveNext (cap cur bytes : ℕ) : Option ℕ :=
  if cur + bytes < 2 ^ 64 ∧ cur + bytes ≤ cap then some (cur + bytes) else none

namespace PartOwner

/-- A call up to its first operation on the counter. -/
def call (crates : PartCrates) (w : PartOwner) : PartCall → Option PartOwner
  | .push p =>
    match w.asm.offer crates p.roomId p.part p.now with
    | none => none
    | some (.done asm result) => some ⟨asm, .returning (some result)⟩
    | some (.reserve asm piece) => some ⟨asm, .loading p piece⟩
  | .expire now => some ⟨w.asm.expire now, .returning none⟩
  | .clear => some ⟨w.asm.clear, .returning none⟩
  | .drop => some ⟨w.asm.clear, .gone⟩

/-- `reserve` with the value it has seen. -/
def tries (cap : ℕ) (w : PartOwner) (p : PartPush) (piece : List UInt8) (cur : ℕ) : PartOwner :=
  match reserveNext cap cur p.part.totalBytes with
  | none => { w with phase := .returning (some (.error .budgetExhausted)) }
  | some _ => { w with phase := .exchanging p piece cur }

end PartOwner

namespace PartOwners

def put (s : PartOwners) (k : ℕ) (w : PartOwner) : PartOwners :=
  { s with owners := s.owners.set k w }

/-- **One step.**  An owner goes on once the reservations of removed entries are dropped. -/
def step (crates : PartCrates) (cap : ℕ) (s : PartOwners) : PartMove → Option PartOwners
  | .new maxConcurrent ttl =>
    some { s with owners := s.owners ++ [⟨.new maxConcurrent ttl, .idle⟩] }
  | .call k c =>
    match s.owners[k]? with
    | some ⟨asm, .idle⟩ => (PartOwner.call crates ⟨asm, .idle⟩ c).map fun w => s.put k w
    | _ => none
  | .release k =>
    match s.owners[k]? with
    | none => none
    | some w =>
      match w.asm.dropped with
      | [] => none
      | bytes :: dropped =>
        some { s.put k { w with asm := { w.asm with dropped } } with used := s.used - bytes }
  | .load k =>
    match s.owners[k]? with
    | some ⟨asm, .loading p piece⟩ =>
      if asm.dropped = [] then
        some (s.put k (PartOwner.tries cap ⟨asm, .loading p piece⟩ p piece s.used))
      else none
    | _ => none
  | .compareExchange k =>
    match s.owners[k]? with
    | some ⟨asm, .exchanging p piece cur⟩ =>
      if s.used = cur then
        some { s.put k ⟨asm, .reserved p piece⟩ with used := cur + p.part.totalBytes }
      else some (s.put k (PartOwner.tries cap ⟨asm, .exchanging p piece cur⟩ p piece s.used))
    | _ => none
  | .begin k =>
    match s.owners[k]? with
    | some ⟨asm, .reserved p piece⟩ =>
      (asm.accept crates p.roomId p.part piece p.now).map fun out =>
        s.put k ⟨out.1, .returning (some out.2)⟩
    | _ => none
  | .ret k =>
    match s.owners[k]? with
    | some ⟨asm, .returning _⟩ => if asm.dropped = [] then some (s.put k ⟨asm, .idle⟩) else none
    | _ => none

/-- The histories of the assemblers after one more move. -/
def recorded (s : PartOwners) (since : ℕ → SinceBegan) : PartMove → ℕ → SinceBegan
  | .call k (.push p) => Function.update since k ((since k).pushed p)
  | .begin k =>
    match s.owners[k]? with
    | some ⟨_, .reserved p _⟩ => Function.update since k ((since k).begun p)
    | _ => since
  | _ => since

/-- The state after a list of moves, with the history of each assembler. -/
def run (crates : PartCrates) (cap : ℕ) (moves : List PartMove) :
    Option (PartOwners × (ℕ → SinceBegan)) :=
  moves.foldlM (fun at' m => (step crates cap at'.1 m).map fun s => (s, at'.1.recorded at'.2 m))
    (⟨0, []⟩, fun _ _ => [])

end PartOwners

/-! ### What is held -/

/-- The bytes of the reservation that is being made. -/
def PartPhase.pending : PartPhase → ℕ
  | .reserved p _ => p.part.totalBytes
  | _ => 0

/-- The bytes that are reserved for an assembler. -/
def PartOwner.heldBytes (w : PartOwner) : ℕ := w.asm.heldBytes + w.phase.pending

namespace PartOwners

/-- The bytes that are reserved. -/
def heldBytes (s : PartOwners) : ℕ := (s.owners.map PartOwner.heldBytes).sum

/-- What an owner holds, where it is, with its pushes so far. -/
def Stands (crates : PartCrates) (since : SinceBegan) (w : PartOwner) : Prop :=
  match w.phase with
  | .idle => w.asm.Sound ∧ w.asm.Backed since ∧ w.asm.dropped = []
  | .gone => w.asm.Sound ∧ w.asm.Backed since
  | .loading p piece | .exchanging p piece _ | .reserved p piece => w.asm.Waits since p piece
  | .returning result => w.asm.Sound ∧ w.asm.Backed since ∧
    ∀ m, result = some (.ok (some m)) → AssembledFrom crates since m

/-- **The invariant.** -/
structure Inv (crates : PartCrates) (cap : ℕ) (s : PartOwners) (since : ℕ → SinceBegan) : Prop where
  used : s.used = s.heldBytes
  capped : s.used ≤ cap
  exchanging : ∀ w ∈ s.owners, ∀ p piece cur, w.phase = .exchanging p piece cur →
    cur + p.part.totalBytes ≤ cap
  stands : ∀ k w, s.owners[k]? = some w → Stands crates (since k) w

variable {s s' : PartOwners} {since since' : ℕ → SinceBegan} {m : PartMove} {k : ℕ}
  {w w' : PartOwner}

lemma heldBytes_put (h : s.owners[k]? = some w) (w' : PartOwner) :
    (s.put k w').heldBytes + w.heldBytes = s.heldBytes + w'.heldBytes := by
  obtain ⟨hk, hw⟩ := List.getElem?_eq_some_iff.1 h
  have hbefore := ((List.getElem_cons_eraseIdx_perm hk).map PartOwner.heldBytes).sum_nat
  have hafter := ((List.set_perm_cons_eraseIdx hk w').map PartOwner.heldBytes).sum_nat
  rw [List.map_cons, List.sum_cons, hw] at hbefore
  rw [List.map_cons, List.sum_cons] at hafter
  change ((s.owners.set k w').map PartOwner.heldBytes).sum + _ =
    (s.owners.map PartOwner.heldBytes).sum + _
  omega

lemma mem_put (h : w ∈ (s.put k w').owners) : w = w' ∨ w ∈ s.owners :=
  (List.mem_or_eq_of_mem_set h).symm

/-- An owner has moved. -/
lemma Inv.put (hI : Inv crates cap s since) (hk : s.owners[k]? = some w) {used : ℕ}
    (hothers : ∀ j, j ≠ k → since' j = since j)
    (hused : used + w.heldBytes = s.used + w'.heldBytes) (hcap : used ≤ cap)
    (hexchanging : ∀ p piece cur, w'.phase = .exchanging p piece cur →
      cur + p.part.totalBytes ≤ cap) (hstands : Stands crates (since' k) w') :
    Inv crates cap { s.put k w' with used } since' where
  used := by
    have hput := heldBytes_put hk w'
    have hsum := hI.used
    change used = (s.put k w').heldBytes
    omega
  capped := hcap
  exchanging v hv := by
    rcases mem_put hv with rfl | hv
    · exact hexchanging
    · exact hI.exchanging v hv
  stands j v hj := by
    obtain ⟨hlt, hw⟩ := List.getElem?_eq_some_iff.1 hk
    have hj : (s.owners.set k w')[j]? = some v := hj
    by_cases hkj : k = j
    · subst hkj
      rw [List.getElem?_set_self hlt] at hj
      cases hj
      exact hstands
    · rw [List.getElem?_set_ne hkj] at hj
      rw [hothers j (Ne.symm hkj)]
      exact hI.stands j v hj

/-- What an owner holds does not depend on the reservations still to be dropped. -/
lemma Stands.released {since : SinceBegan} {bytes : ℕ} {dropped : List ℕ}
    (hs : Stands crates since w) (hd : w.asm.dropped = bytes :: dropped) :
    Stands crates since { w with asm := { w.asm with dropped } } := by
  have hsound {a : PartAssembler} (ha : a.Sound) : ({ a with dropped } : PartAssembler).Sound :=
    ⟨ha.positive, ha.bounded, ha.entries, ha.keys, ha.slots⟩
  have hwaits {a : PartAssembler} {p : PartPush} {piece : List UInt8} (hw : a.Waits since p piece) :
      ({ a with dropped } : PartAssembler).Waits since p piece :=
    ⟨hsound hw.sound, hw.backed, hw.valid, hw.piece_eq, hw.room, hw.key, hw.slot⟩
  obtain ⟨asm, phase⟩ := w
  cases phase with
  | idle =>
    -- between two calls no reservation is left to be dropped
    rw [hs.2.2] at hd
    cases hd
  | gone | returning => exact ⟨hsound hs.1, hs.2⟩
  | loading | exchanging | reserved => exact hwaits hs

/-- The value an exchange would store is within the cap. -/
lemma tries_phase {cur c : ℕ} {p q : PartPush} {piece piece' : List UInt8}
    (h : (w.tries cap p piece cur).phase = .exchanging q piece' c) :
    c + q.part.totalBytes ≤ cap := by
  unfold PartOwner.tries at h
  split at h
  · cases h
  · rename_i next hnext
    cases h
    unfold reserveNext at hnext
    split at hnext
    · rename_i hle
      exact hle.2
    · cases hnext

lemma tries_heldBytes {cur : ℕ} {p : PartPush} {piece : List UInt8} (h : w.phase.pending = 0) :
    (w.tries cap p piece cur).heldBytes = w.heldBytes := by
  unfold PartOwner.tries PartOwner.heldBytes
  rw [h]
  split <;> rfl

/-- Within `reserve` the owner stands where it stood, or the push has failed. -/
lemma tries_stands {since : SinceBegan} {cur : ℕ} {p : PartPush} {piece : List UInt8}
    (hw : w.asm.Waits since p piece) : Stands crates since (w.tries cap p piece cur) := by
  unfold PartOwner.tries
  split
  · exact ⟨hw.sound, hw.backed, fun m hm => by cases hm⟩
  · exact hw

/-- A call that only removes entries. -/
lemma Inv.removes (hI : Inv crates cap s since) {asm a' : PartAssembler} {gone : List Entry}
    (hk : s.owners[k]? = some ⟨asm, .idle⟩) (hsheds : asm.Sheds a' gone) {phase : PartPhase}
    (hphase : phase = .returning none ∨ phase = .gone) :
    Inv crates cap (s.put k ⟨a', phase⟩) since := by
  obtain ⟨hsound, hbacked, -⟩ := hI.stands k _ hk
  have hbytes := hsheds.heldBytes
  refine hI.put hk (fun _ _ => rfl) ?_ hI.capped (fun p piece cur hp => ?_) ?_
  · rw [PartOwner.heldBytes, PartOwner.heldBytes, hbytes]
    rcases hphase with rfl | rfl <;> rfl
  · rcases hphase with rfl | rfl <;> cases hp
  · rcases hphase with rfl | rfl
    · exact ⟨hsound.sheds hsheds, hbacked.sheds hsheds, fun m hm => by cases hm⟩
    · exact ⟨hsound.sheds hsheds, hbacked.sheds hsheds⟩

lemma Inv.call (hI : Inv crates cap s since) {asm : PartAssembler} {c : PartCall}
    (hk : s.owners[k]? = some ⟨asm, .idle⟩) (h : PartOwner.call crates ⟨asm, .idle⟩ c = some w') :
    Inv crates cap (s.put k w') (s.recorded since (.call k c)) := by
  cases c with
  | push p =>
    obtain ⟨hsound, hbacked, -⟩ := hI.stands k _ hk
    obtain ⟨offered, hoffer, hspec⟩ := asm.offer_spec crates hsound hbacked p
    have hothers (j : ℕ) (hj : j ≠ k) : s.recorded since (.call k (.push p)) j = since j :=
      Function.update_of_ne hj _ _
    have hthis : s.recorded since (.call k (.push p)) k = (since k).pushed p :=
      Function.update_self k _ _
    simp only [PartOwner.call, hoffer] at h
    cases offered with
    | done asm' result =>
      cases h
      have hbytes := hspec.heldBytes
      refine hI.put hk hothers ?_ hI.capped (fun p piece cur hp => by cases hp) ?_
      · rw [PartOwner.heldBytes, PartOwner.heldBytes, hbytes]
        rfl
      · rw [hthis]
        exact ⟨hspec.sound, hspec.backed, fun m hm => hspec.assembled m (Option.some.inj hm)⟩
    | reserve asm' piece =>
      cases h
      obtain ⟨hwaits, hbytes⟩ := hspec
      refine hI.put hk hothers ?_ hI.capped (fun p piece cur hp => by cases hp) ?_
      · rw [PartOwner.heldBytes, PartOwner.heldBytes, hbytes]
        rfl
      · rw [hthis]
        exact hwaits
  | expire now =>
    cases h
    exact hI.removes hk (PartAssembler.retain_sheds _ _) (.inl rfl)
  | clear =>
    cases h
    exact hI.removes hk (PartAssembler.retain_sheds _ _) (.inl rfl)
  | drop =>
    cases h
    exact hI.removes hk (PartAssembler.retain_sheds _ _) (.inr rfl)

lemma Inv.release (hI : Inv crates cap s since) (hk : s.owners[k]? = some w) {bytes : ℕ}
    {dropped : List ℕ} (hd : w.asm.dropped = bytes :: dropped) :
    Inv crates cap { s.put k { w with asm := { w.asm with dropped } } with used := s.used - bytes }
      since := by
  have hsum := heldBytes_put hk { w with asm := { w.asm with dropped } }
  have hheld : w.heldBytes =
      PartOwner.heldBytes { w with asm := { w.asm with dropped } } + bytes := by
    simp only [PartOwner.heldBytes, PartAssembler.heldBytes, hd, List.sum_cons]
    omega
  have hused := hI.used
  have hcapped := hI.capped
  exact hI.put hk (fun _ _ => rfl) (by omega) (by omega)
    (hI.exchanging w (List.mem_of_getElem? hk)) ((hI.stands k w hk).released hd)

/-- **Every step keeps the invariant.** -/
lemma Inv.step (hI : Inv crates cap s since) (h : s.step crates cap m = some s') :
    Inv crates cap s' (s.recorded since m) := by
  cases m with
  | new maxConcurrent ttl =>
    cases h
    refine ⟨?_, hI.capped, fun w hw => ?_, fun k w hk => ?_⟩
    · rw [heldBytes, List.map_append, List.sum_append, hI.used]
      rfl
    · rcases List.mem_append.1 hw with hw | hw
      · exact hI.exchanging w hw
      · rw [List.mem_singleton.1 hw]
        intro p piece cur hp
        cases hp
    · rcases Nat.lt_or_ge k s.owners.length with hlt | hge
      · rw [List.getElem?_append_left hlt] at hk
        exact hI.stands k w hk
      · rw [List.getElem?_append_right hge] at hk
        have hmem := List.mem_of_getElem? hk
        rw [List.mem_singleton.1 hmem]
        exact ⟨PartAssembler.sound_new maxConcurrent ttl, fun e he => (by cases he), rfl⟩
  | call k c =>
    simp only [PartOwners.step] at h
    split at h
    · rename_i asm hk
      obtain ⟨w', hcall, rfl⟩ := Option.map_eq_some_iff.1 h
      exact hI.call hk hcall
    · cases h
  | release k =>
    simp only [PartOwners.step] at h
    split at h
    · cases h
    · rename_i w hk
      split at h
      · cases h
      · rename_i bytes dropped hd
        cases h
        exact hI.release hk hd
  | load k =>
    simp only [PartOwners.step] at h
    split at h
    · rename_i asm p piece hk
      split at h
      · cases h
        have hwaits := hI.stands k _ hk
        exact hI.put hk (fun _ _ => rfl) (by rw [tries_heldBytes rfl]) hI.capped
          (fun _ _ _ hp => tries_phase hp) (tries_stands hwaits)
      · cases h
    · cases h
  | compareExchange k =>
    simp only [PartOwners.step] at h
    split at h
    · rename_i asm p piece cur hk
      have hwaits := hI.stands k _ hk
      split at h
      · rename_i hcur
        cases h
        refine hI.put hk (fun _ _ => rfl) ?_ ?_ (fun _ _ _ hp => by cases hp) hwaits
        · simp only [PartOwner.heldBytes, PartPhase.pending, hcur]
          omega
        · exact hI.exchanging _ (List.mem_of_getElem? hk) p piece cur rfl
      · cases h
        exact hI.put hk (fun _ _ => rfl) (by rw [tries_heldBytes rfl]) hI.capped
          (fun _ _ _ hp => tries_phase hp) (tries_stands hwaits)
    · cases h
  | begin k =>
    simp only [PartOwners.step] at h
    split at h
    · rename_i asm p piece hk
      have hwaits := hI.stands k _ hk
      obtain ⟨asm', result, haccept, hspec⟩ := PartAssembler.accept_spec crates hwaits
      have hrecorded : s.recorded since (.begin k) =
          Function.update since k ((since k).begun p) := by simp [recorded, hk]
      have hbytes := hspec.heldBytes
      rw [haccept, Option.map_some] at h
      cases h
      rw [hrecorded]
      refine hI.put hk (fun j hj => Function.update_of_ne hj _ _) ?_ hI.capped
        (fun _ _ _ hp => by cases hp) ?_
      · simp only [PartOwner.heldBytes, PartPhase.pending, hbytes]
        omega
      · rw [Function.update_self]
        exact ⟨hspec.sound, hspec.backed, fun m hm => hspec.assembled m (Option.some.inj hm)⟩
    · cases h
  | ret k =>
    simp only [PartOwners.step] at h
    split at h
    · rename_i asm result hk
      split at h
      · rename_i hdropped
        cases h
        obtain ⟨hsound, hbacked, -⟩ := hI.stands k _ hk
        exact hI.put hk (fun _ _ => rfl) rfl hI.capped (fun _ _ _ hp => by cases hp)
          ⟨hsound, hbacked, hdropped⟩
      · cases h
    · cases h

end PartOwners

/-! ### The assemblers of a run -/

/-- **An assembler is bounded and sound**: it holds at most its limit of assemblies and one for each
room and kind, all well formed; none of its calls panics; between two calls no removed entry still
holds a reservation; and a manifest it returns is made of its pieces. -/
structure PartOwner.Bounded (crates : PartCrates) (cap : ℕ) (s : PartOwners) (since : SinceBegan)
    (k : ℕ) (w : PartOwner) : Prop where
  bounded : w.asm.entries.length ≤ w.asm.maxConcurrent
  slots : (w.asm.entries.map Entry.slot).Nodup
  entries : ∀ e ∈ w.asm.entries, e.Sound
  calls : w.phase = .idle → ∀ c, (s.step crates cap (.call k c)).isSome
  begins : ∀ p piece, w.phase = .reserved p piece → (s.step crates cap (.begin k)).isSome
  releases : ∀ bytes ∈ w.asm.dropped, bytes ≤ s.used
  settled : w.phase = .idle → w.asm.dropped = []
  assembled : ∀ m, w.phase = .returning (some (.ok (some m))) → AssembledFrom crates since m

namespace SmallManifest

def push (i : ℕ) : PartCall := .push ⟨1, piece i, 0⟩

/-- Both owners begin an assembly after they have seen an empty budget, the exchange of the second
one fails once, and the first one gets its manifest. -/
def moves : List PartMove :=
  [.new 2 30, .new 2 30, .call 0 (push 0), .call 1 (push 0), .load 0, .load 1, .compareExchange 0,
    .compareExchange 1, .compareExchange 1, .begin 0, .begin 1, .ret 0,
      .call 0 (push 1), .release 0]

end SmallManifest

end Locast.Protocol
