import Locast.Protocol.Assembling

/-!
# What the pieces of an assembler were

The history of an assembler is, for each assembly, the pushes since it began.  Every entry holds the
bytes of the pieces of its assembly that were pushed in order, and a manifest is made of all of
them.
-/

namespace Locast.Protocol

open Locast.Lib

variable {crates : PartCrates} {a a' : PartAssembler} {e e' : Entry}

/-- The pushes on an assembler since the assembly of a key began. -/
abbrev SinceBegan : Type := Uuid × Uuid → List PartPush

namespace SinceBegan

/-- One more push. -/
def pushed (since : SinceBegan) (p : PartPush) : SinceBegan := fun key => since key ++ [p]

/-- The push `p` begins its assembly. -/
def begun (since : SinceBegan) (p : PartPush) : SinceBegan :=
  fun key => if key = p.key then [p] else since key

end SinceBegan

variable {h : List PartPush} {since : SinceBegan} {p : PartPush}

/-! ### Pieces in order -/

/-- `pieces` were pushed one after the other: they are the first `n` of the assembly `key`, they
repeat one header, and they carry `bytes`. -/
structure InOrder (h : List PartPush) (key : Uuid × Uuid) (header : PartHeader) (n : ℕ)
    (bytes : List UInt8) (pieces : List PartPush) : Prop where
  pushed : pieces.Sublist h
  same : ∀ p ∈ pieces, p.key = key ∧ p.part.header = header
  indices : pieces.map (·.part.index) = List.range n
  content : pieces.flatMap PartPush.bytes = bytes

namespace InOrder

variable {key : Uuid × Uuid} {header : PartHeader} {n : ℕ} {bytes : List UInt8}
  {pieces : List PartPush}

lemma nil (h : List PartPush) (key : Uuid × Uuid) (header : PartHeader) :
    InOrder h key header 0 [] [] :=
  ⟨List.nil_sublist h, fun p hp => (by cases hp), rfl, rfl⟩

lemma later (hi : InOrder h key header n bytes pieces) (p : PartPush) :
    InOrder (h ++ [p]) key header n bytes pieces :=
  { hi with pushed := hi.pushed.trans (List.sublist_append_left h [p]) }

/-- The next piece. -/
lemma next (hi : InOrder h key header n bytes pieces) (hkey : p.key = key)
    (hheader : p.part.header = header) (hindex : p.part.index = n) :
    InOrder (h ++ [p]) key header (n + 1) (bytes ++ p.bytes) (pieces ++ [p]) where
  pushed := hi.pushed.append (List.Sublist.refl [p])
  same q hq := by
    rcases List.mem_append.1 hq with hq | hq
    · exact hi.same q hq
    · rw [List.mem_singleton.1 hq]
      exact ⟨hkey, hheader⟩
  indices := by rw [List.map_append, hi.indices, List.map_singleton, hindex, List.range_succ]
  content := by rw [List.flatMap_append, hi.content, List.flatMap_singleton]

end InOrder

/-- The bytes of an entry are those of its pieces. -/
def Entry.Gathered (h : List PartPush) (e : Entry) : Prop :=
  ∃ pieces, InOrder h e.key e.header e.ends.length e.buf pieces

/-- **A manifest is made of its pieces**: since its assembly began all of them were pushed in order,
the last one just now, under one header, and together they have the declared length and digest and
parse to it. -/
def AssembledFrom (crates : PartCrates) (since : SinceBegan) (m : AssembledManifest) : Prop :=
  ∃ assemblyId header bytes pieces,
    InOrder (since (m.roomId, assemblyId)) (m.roomId, assemblyId) header header.total bytes pieces ∧
      pieces.getLast? = (since (m.roomId, assemblyId)).getLast? ∧
      bytes.length = header.totalBytes ∧ crates.sha256Hex bytes = header.digest ∧
      crates.fromSlice bytes = .ok m.manifest ∧ m.kind = header.kind ∧
      m.version = header.version ∧ m.publishedAtMs = header.publishedAtMs

/-- The pieces of every entry were pushed since its assembly began. -/
def PartAssembler.Backed (since : SinceBegan) (a : PartAssembler) : Prop :=
  ∀ e ∈ a.entries, e.Gathered (since e.key)

namespace PartAssembler

lemma Backed.later (hb : a.Backed since) (p : PartPush) : a.Backed (since.pushed p) :=
  fun e he => by
  obtain ⟨pieces, hi⟩ := hb e he
  exact ⟨pieces, hi.later p⟩

lemma Backed.sheds {gone : List Entry} (hb : a.Backed since) (hs : Sheds a a' gone) :
    a'.Backed since := fun e he => hb e (hs.mem he)

end PartAssembler

/-! ### Taking a piece -/

namespace Entry.Takes

variable {piece : List UInt8} {result : Pushed}

/-- An entry that stays has the bytes of its pieces. -/
lemma gathered (ht : e.Takes crates p.part piece p.now e' (.ok none)) (hkey : p.key = e.key)
    (hpiece : p.bytes = piece) (hg : e.Gathered h) : e'.Gathered (h ++ [p]) := by
  obtain ⟨pieces, hi⟩ := hg
  generalize hresult : (.ok none : Pushed) = result at ht
  cases ht with
  | repeated => exact ⟨pieces, hi.later p⟩
  | refused | failed | completed => cases hresult
  | taken hheader hindex =>
    have hnext := hi.next hkey hheader.symm hindex
    rw [hpiece] at hnext
    refine ⟨pieces ++ [p], ?_⟩
    simpa [Entry.extended, Entry.key, Entry.header] using hnext

/-- **A manifest** is made of the pieces of its entry. -/
lemma assembled {m : AssembledManifest} (ht : e.Takes crates p.part piece p.now e' (.ok (some m)))
    (hkey : p.key = e.key) (hpiece : p.bytes = piece) (hvalid : p.part.index < p.part.total)
    (hg : e.Gathered h) (hsince : since e.key = h ++ [p]) : AssembledFrom crates since m := by
  obtain ⟨pieces, hi⟩ := hg
  cases ht with
  | completed hheader hindex hlast hlength hdigest manifest hparse =>
    have hnext := hi.next hkey hheader.symm hindex
    have htotal : e.total = p.part.total := congrArg PartHeader.total hheader
    have hall : e.ends.length + 1 = e.header.total := by
      change _ = e.total
      omega
    rw [hpiece, hall, ← hsince] at hnext
    refine ⟨e.assemblyId, e.header, _, _, hnext, ?_, hlength, hdigest, hparse, rfl, rfl, rfl⟩
    change _ = (since e.key).getLast?
    rw [hsince, List.getLast?_concat, List.getLast?_concat]

end Entry.Takes

namespace PartAssembler

/-- What a push leaves behind, and what it returns. -/
structure Leaves (crates : PartCrates) (since : SinceBegan) (a a' : PartAssembler) (result : Pushed)
    (reserved : ℕ) : Prop where
  sound : a'.Sound
  backed : a'.Backed since
  heldBytes : a'.heldBytes = a.heldBytes + reserved
  assembled : ∀ m, result = .ok (some m) → AssembledFrom crates since m

lemma Finishes.leaves {piece : List UInt8} {result : Pushed} {others : List Entry}
    (hf : Finishes crates a e p.part piece p.now a' result e' others) (ha : a.Sound)
    (hg : e.Gathered h) (hothers : ∀ x ∈ others, x.Gathered (since x.key)) (hkey : p.key = e.key)
    (hpiece : p.bytes = piece) (hvalid : p.part.index < p.part.total)
    (hsince : since e.key = h ++ [p]) : Leaves crates since a a' result 0 where
  sound := hf.sound ha
  backed x hx := by
    rcases hf.mem hx with ⟨rfl, hnone⟩ | hx
    · have ht := hf.takes
      rw [hnone] at ht
      rw [ht.key_eq, hsince]
      exact ht.gathered hkey hpiece hg
    · exact hothers x hx
  heldBytes := hf.heldBytes
  assembled m hm := by
    have ht := hf.takes
    rw [hm] at ht
    exact ht.assembled hkey hpiece hvalid hg hsince

end PartAssembler

/-! ### Pushes -/

namespace PartAssembler

/-- A push that waits for a reservation. -/
structure Waits (since : SinceBegan) (p : PartPush) (a : PartAssembler) (piece : List UInt8) :
    Prop where
  sound : a.Sound
  backed : a.Backed since
  valid : validateHeader p.part = .ok ()
  piece_eq : fromBase64 p.part.data = some piece
  room : a.entries.length < a.maxConcurrent
  key : ∀ e ∈ a.entries, e.key ≠ p.key
  slot : ∀ e ∈ a.entries, e.slot ≠ (p.roomId, p.part.kind)

/-- **A push up to its reservation.** -/
lemma offer_spec (crates : PartCrates) (ha : a.Sound) (hb : a.Backed since) (p : PartPush) :
    ∃ offered, a.offer crates p.roomId p.part p.now = some offered ∧
      match offered with
      | .done a' result => Leaves crates (since.pushed p) a a' result 0
      | .reserve a' piece => Waits (since.pushed p) p a' piece ∧ a'.heldBytes = a.heldBytes := by
  have hexpire : Sheds a (a.expire p.now) _ := retain_sheds a _
  have hsound := ha.sheds hexpire
  have hbacked := hb.sheds hexpire
  obtain ⟨offered, hoffer, hcase⟩ := ha.offers crates p
  refine ⟨offered, hoffer, ?_⟩
  cases hcase with
  | refused hs _ err =>
    exact ⟨hsound.sheds hs, (hbacked.sheds hs).later p, hs.heldBytes.trans hexpire.heldBytes,
      fun m hm => by cases hm⟩
  | @continues a' piece pos result hvalid hpiece hpos hfinish =>
    have hbytes : p.bytes = piece := by rw [PartPush.bytes, hpiece, Option.getD_some]
    obtain ⟨e, he, hkey⟩ := position_eq_some hpos
    obtain ⟨e', others, hf⟩ := finish_spec he hfinish
    have hl := hf.leaves hsound (hbacked e (hf.before.mem_iff.2 List.mem_cons_self))
      (fun x hx => hbacked.later p x (hf.mem_before hx)) hkey.symm hbytes
      (index_lt_of_validateHeader hvalid) rfl
    exact ⟨hl.sound, hl.backed, hl.heldBytes.trans hexpire.heldBytes, hl.assembled⟩
  | begins hvalid hpiece hpos =>
    obtain ⟨⟨gone, hroom⟩, hslot, hlength⟩ :=
      makeRoom_spec (a.expire p.now) p.roomId p.part.kind hsound.positive
    refine ⟨⟨hsound.sheds hroom, (hbacked.sheds hroom).later p, hvalid, hpiece,
      by rwa [hroom.limit], fun e he => ?_, hslot⟩, hroom.heldBytes.trans hexpire.heldBytes⟩
    exact position_eq_none hpos e (hroom.mem he)

/-- **A push from its reservation on.** -/
lemma accept_spec (crates : PartCrates) {piece : List UInt8} (hw : Waits since p a piece) :
    ∃ a' result, a.accept crates p.roomId p.part piece p.now = some (a', result) ∧
      Leaves crates (since.begun p) a a' result p.part.totalBytes := by
  have hbegun := hw.sound.begun hw.room hw.key hw.slot
  have hbytes : p.bytes = piece := by rw [PartPush.bytes, hw.piece_eq, Option.getD_some]
  obtain ⟨a', result, e', others, haccept, hf, hold⟩ := hbegun.accepts crates piece
  have hothers (x : Entry) (hx : x ∈ others) : x.Gathered (since.begun p x.key) := by
    have hx := hold.mem_iff.1 hx
    rw [SinceBegan.begun, if_neg (hw.key x hx)]
    exact hw.backed x hx
  have hl := hf.leaves hbegun (h := []) ⟨[], .nil [] _ _⟩ hothers rfl hbytes
    (index_lt_of_validateHeader hw.valid) (if_pos rfl)
  refine ⟨a', result, haccept, hl.sound, hl.backed, hl.heldBytes.trans ?_, hl.assembled⟩
  simp only [PartAssembler.begun, heldBytes, List.map_append, List.map_singleton, List.sum_append,
    List.sum_singleton]
  change _ + p.part.totalBytes + _ = _
  omega

end PartAssembler

end Locast.Protocol
