import Locast.Protocol.SplitManifest

/-!
# What a failed push leaves behind

"An error drops the assembly the piece belonged to" is what `push` promises, and nothing else is to
happen.  Two of its exits are different: an invalid header is refused before its assembly is looked
up, and a piece that begins an assembly has made room for it before the budget, or the new entry,
refuses it.
-/

namespace Locast.Protocol

open Locast.Lib

variable {crates : PartCrates} {reserved : Except PartError Unit} {a a' : PartAssembler}
  {p : PartPush} {e : Entry}

namespace PartAssembler

/-! ### Reachable assemblers -/

/-- **The states of an assembler**: a new one, after any calls, with any answers of the budget.  The
reservations that a call drops are gone after it (`released`). -/
inductive Reached (crates : PartCrates) : PartAssembler → Prop
  | new (maxConcurrent ttl : ℕ) : Reached crates (new maxConcurrent ttl)
  | clear {a : PartAssembler} (h : Reached crates a) : Reached crates a.clear
  | expire {a : PartAssembler} (h : Reached crates a) (now : ℕ) : Reached crates (a.expire now)
  | released {a : PartAssembler} (h : Reached crates a) : Reached crates { a with dropped := [] }
  | push {a a' : PartAssembler} (h : Reached crates a) (p : PartPush)
    (reserved : Except PartError Unit)
      (result : Pushed) (hpush : a.push crates reserved p.roomId p.part p.now = some (a', result)) :
      Reached crates a'

/-- **Every state of an assembler is well formed.** -/
lemma Reached.sound (h : Reached crates a) : a.Sound := by
  induction h with
  | new maxConcurrent ttl => exact sound_new maxConcurrent ttl
  | clear _ ih => exact ih.sheds (retain_sheds _ _)
  | expire _ now ih => exact ih.sheds (retain_sheds _ _)
  | released _ ih => exact ⟨ih.positive, ih.bounded, ih.entries, ih.keys, ih.slots⟩
  | push _ p reserved result hpush ih => exact (ih.push hpush).1

/-! ### Operations that remove nothing -/

lemma retain_eq_self {keep : Entry → Bool} (h : ∀ e ∈ a.entries, keep e) : a.retain keep = a := by
  have hkept : a.entries.filter keep = a.entries := List.filter_eq_self.2 h
  have hgone : a.entries.filter (!keep ·) = [] :=
    List.filter_eq_nil_iff.2 fun e he => by simp [h e he]
  rw [retain, hkept, hgone, List.map_nil, List.append_nil]

lemma evict_eq_self (n : ℕ) (h : a.entries.length < a.maxConcurrent) : a.evict n = a := by
  cases n with
  | zero => rfl
  | succ n => rw [evict, if_neg (Nat.not_le.2 h)]

/-- **Room is made for nothing** when no entry has the slot and there is room already. -/
lemma makeRoom_eq_self {roomId : Uuid} {kind : ManifestPartKind}
    (hslot : ∀ e ∈ a.entries, e.slot ≠ (roomId, kind))
    (hroom : a.entries.length < a.maxConcurrent) :
    a.makeRoom roomId kind = a := by
  have hretain : (a.retain fun e => !(e.roomId = roomId && e.kind = kind)) = a := by
    refine retain_eq_self fun e he => ?_
    have hno := hslot e he
    simp only [Entry.slot, ne_eq, Prod.mk.injEq] at hno
    simpa [imp_iff_not_or] using hno
  rw [makeRoom, hretain]
  exact evict_eq_self _ hroom

/-- **When making room keeps every entry.** -/
lemma makeRoom_keeps_iff (roomId : Uuid) (kind : ManifestPartKind) (hpos : 0 < a.maxConcurrent) :
    (a.makeRoom roomId kind).entries.Perm a.entries ↔
      (∀ e ∈ a.entries, e.slot ≠ (roomId, kind)) ∧ a.entries.length < a.maxConcurrent := by
  refine ⟨fun hperm => ?_, fun h => by rw [makeRoom_eq_self h.1 h.2]⟩
  obtain ⟨-, hslot, hroom⟩ := makeRoom_spec a roomId kind hpos
  exact ⟨fun e he => hslot e (hperm.mem_iff.2 he), hperm.length_eq ▸ hroom⟩

/-! ### The contract -/

/-- Nothing expires at that time. -/
def Unexpired (a : PartAssembler) (now : ℕ) : Prop := ∀ e ∈ a.entries, now - e.lastActivity < a.ttl

lemma Unexpired.expire_eq {now : ℕ} (h : a.Unexpired now) : a.expire now = a :=
  retain_eq_self fun e he => decide_eq_true (h e he)

/-- The assembly of a piece, if any. -/
def own (a : PartAssembler) (p : PartPush) : List Entry := a.entries.filter fun e => e.key = p.key

/-- The other assemblies. -/
def others (a : PartAssembler) (p : PartPush) : List Entry :=
  a.entries.filter fun e => e.key ≠ p.key

/-- **A push touches its own assembly only**: the others are as they were, and the one of its piece
is dropped with its reservation.  Where there was none, one may have been reserved and dropped. -/
structure TouchesOwn (a : PartAssembler) (p : PartPush) (a' : PartAssembler) : Prop where
  entries : a'.entries.Perm (a.others p)
  dropped : a'.dropped = a.dropped ++ (a.own p).map (·.totalBytes) ∨
    a.own p = [] ∧ a'.dropped = a.dropped ++ [p.part.totalBytes]

/-- The bytes of a piece are base64, and not too many. -/
def Decodes (part : ManifestPartPayload) : Prop :=
  part.data.utf8ByteSize ≤ divCeil maxPartBytes 3 * 4 ∧
    ∃ piece, fromBase64 part.data = some piece ∧ piece.length ≤ maxPartBytes

/-- A piece begins an assembly. -/
structure Begins (a : PartAssembler) (p : PartPush) : Prop where
  valid : validateHeader p.part = .ok ()
  decodes : Decodes p.part
  first : p.part.index = 0
  fresh : a.own p = []

/-- **Nothing else is in danger**: an invalid header names no assembly, and a piece that begins one
neither replaces another nor needs the room of another. -/
structure Spares (a : PartAssembler) (p : PartPush) : Prop where
  named : validateHeader p.part ≠ .ok () → a.own p = []
  room : a.Begins p → (∀ e ∈ a.entries, e.slot ≠ (p.roomId, p.part.kind)) ∧
    a.entries.length < a.maxConcurrent

/-- The error exits of a push at which nothing expires. -/
inductive Fails (crates : PartCrates) (a : PartAssembler) (p : PartPush) : PartAssembler → Prop
  | header (hheader : validateHeader p.part ≠ .ok ()) : Fails crates a p a
  | undecoded (hvalid : validateHeader p.part = .ok ()) (hdata : ¬Decodes p.part) :
      Fails crates a p (a.dropAssembly p.roomId p.part.assemblyId)
  | unbegun (hvalid : validateHeader p.part = .ok ()) (hindex : p.part.index ≠ 0)
      (hfresh : a.own p = []) : Fails crates a p a
  | within {a' : PartAssembler} {e e' : Entry} {piece : List UInt8} {err : PartError}
    {rest : List Entry}
      (hvalid : validateHeader p.part = .ok ()) (hkey : e.key = p.key)
      (hfinish : Finishes crates a e p.part piece p.now a' (.error err) e' rest) :
        Fails crates a p a'
  | beginning {a' : PartAssembler} (hbegins : a.Begins p)
      (hentries : a'.entries.Perm (a.makeRoom p.roomId p.part.kind).entries)
      (hdropped : a'.dropped = (a.makeRoom p.roomId p.part.kind).dropped ∨
        a'.dropped = (a.makeRoom p.roomId p.part.kind).dropped ++ [p.part.totalBytes]) :
      Fails crates a p a'

lemma own_eq_nil : a.own p = [] ↔ ∀ e ∈ a.entries, e.key ≠ p.key := by
  simp [own, List.filter_eq_nil_iff]

lemma others_of_own (h : a.own p = []) : a.others p = a.entries :=
  List.filter_eq_self.2 fun e he => decide_eq_true (own_eq_nil.1 h e he)

/-- **How a push fails.** -/
lemma Sound.fails (ha : a.Sound) (hnow : a.Unexpired p.now) {err : PartError}
    (h : a.push crates reserved p.roomId p.part p.now = some (a', .error err)) :
    Fails crates a p a' := by
  rw [PartAssembler.push, offer, hnow.expire_eq] at h
  cases hvalid : validateHeader p.part with
  | error e =>
    rw [hvalid] at h
    cases h
    exact .header (by simp [hvalid])
  | ok _ =>
  rw [hvalid] at h
  dsimp only at h
  by_cases hdata : Decodes p.part
  case neg =>
    have hdropped : a' = a.dropAssembly p.roomId p.part.assemblyId := by
      by_cases hsize : divCeil maxPartBytes 3 * 4 < p.part.data.utf8ByteSize
      · rw [if_pos hsize] at h
        cases h
        rfl
      rw [if_neg hsize] at h
      cases hpiece : fromBase64 p.part.data with
      | none =>
        rw [hpiece] at h
        cases h
        rfl
      | some piece =>
        rw [hpiece] at h
        dsimp only at h
        rw [if_pos (Nat.lt_of_not_le fun hle => hdata ⟨Nat.le_of_not_lt hsize, piece, hpiece, hle⟩)]
          at h
        cases h
        rfl
    rw [hdropped]
    exact .undecoded hvalid hdata
  obtain ⟨hsize, piece, hpiece, hlength⟩ := id hdata
  rw [if_neg (Nat.not_lt.2 hsize), hpiece] at h
  dsimp only at h
  rw [if_neg (Nat.not_lt.2 hlength)] at h
  cases hpos : a.position p.roomId p.part.assemblyId with
  | some pos =>
    rw [hpos] at h
    dsimp only at h
    obtain ⟨e, he, hkey⟩ := position_eq_some hpos
    cases hfinish : a.finish crates pos p.part piece p.now with
    | none =>
      rw [hfinish] at h
      cases h
    | some out =>
      rw [hfinish] at h
      obtain ⟨b, r⟩ := out
      cases h
      obtain ⟨e', rest, hf⟩ := finish_spec he hfinish
      exact .within hvalid hkey hf
  | none =>
    have hfresh : a.own p = [] := own_eq_nil.2 (position_eq_none hpos)
    rw [hpos] at h
    dsimp only at h
    by_cases hindex : p.part.index = 0
    case neg =>
      rw [if_pos hindex] at h
      cases h
      exact .unbegun hvalid hindex hfresh
    rw [if_neg (not_not.2 hindex)] at h
    have hbegins : a.Begins p := ⟨hvalid, hdata, hindex, hfresh⟩
    cases reserved with
    | error err' =>
      cases h
      exact .beginning hbegins (.refl _) (.inl rfl)
    | ok _ =>
      obtain ⟨⟨gone, hs⟩, hslot, hroom⟩ := makeRoom_spec a p.roomId p.part.kind ha.positive
      have hbegun := (ha.sheds hs).begun (p := p) (by rw [hs.limit]; exact hroom)
        (fun e he => position_eq_none hpos e (hs.mem he)) hslot
      obtain ⟨b, r, e', rest, haccept, hf, hrest⟩ := hbegun.accepts crates (p := p) piece
      have hsame := haccept.symm.trans h
      cases hsame
      exact .beginning hbegins (hf.after.trans hrest) (.inr hf.dropped)

/-- **An error touches its own assembly only, exactly when nothing else is in danger**, in every
state of an assembler, when nothing expires. -/
theorem assembly_error (ha : a.Reached crates) (hnow : a.Unexpired p.now) {err : PartError}
    (h : a.push crates reserved p.roomId p.part p.now = some (a', .error err)) :
    a.TouchesOwn p a' ↔ a.Spares p := by
  have hsound := ha.sound
  cases hsound.fails hnow h with
  | header hheader =>
    refine ⟨fun htouch => ⟨fun _ => ?_, fun hb => absurd hb.valid hheader⟩, fun hspares => ?_⟩
    · -- its assembly is still there
      refine own_eq_nil.2 fun e he => ?_
      exact of_decide_eq_true (List.mem_filter.1 (htouch.entries.mem_iff.1 he)).2
    · have hnone := hspares.named hheader
      exact ⟨by rw [others_of_own hnone], .inl (by simp [hnone])⟩
  | undecoded hvalid hdata =>
    refine iff_of_true ⟨?_, .inl ?_⟩
      ⟨fun hheader => absurd hvalid hheader, fun hb => absurd hb.decodes hdata⟩
    · refine .of_eq (List.filter_congr fun e _ => ?_)
      simp [Entry.key, PartPush.key]
    · refine congrArg (a.dropped ++ List.map _ ·) (List.filter_congr fun e _ => ?_)
      simp [Entry.key, PartPush.key]
  | unbegun hvalid hindex hfresh =>
    refine iff_of_true ⟨by rw [others_of_own hfresh], .inl (by simp [hfresh])⟩
      ⟨fun hheader => absurd hvalid hheader, fun hb => absurd hb.first hindex⟩
  | @within _ e e' piece err rest hvalid hkey hf =>
    have hkeys := (hf.before.map Entry.key).nodup_iff.1 hsound.keys
    have hrest : ∀ x ∈ rest, x.key ≠ p.key := fun x hx heq =>
      (List.nodup_cons.1 hkeys).1 (List.mem_map.2 ⟨x, hx, heq.trans hkey.symm⟩)
    have hothers : (a.others p).Perm rest := by
      refine (hf.before.filter _).trans (.of_eq ?_)
      rw [List.filter_cons_of_neg (by simpa using hkey)]
      exact List.filter_eq_self.2 fun x hx => decide_eq_true (hrest x hx)
    have hown : a.own p = [e] := by
      refine List.perm_singleton.1 ((hf.before.filter _).trans (.of_eq ?_))
      rw [List.filter_cons_of_pos (by simpa using hkey)]
      exact congrArg (e :: ·) (List.filter_eq_nil_iff.2 fun x hx => by simpa using hrest x hx)
    refine iff_of_true ⟨hf.after.trans hothers.symm, .inl ?_⟩
      ⟨fun hheader => absurd hvalid hheader, fun hb => absurd hb.fresh (by simp [hown])⟩
    rw [hf.dropped, hown]
    rfl
  | beginning hbegins hentries hdropped =>
    have hall := others_of_own hbegins.fresh
    constructor
    · intro htouch
      have hkept := hentries.symm.trans (hall ▸ htouch.entries)
      exact ⟨fun _ => hbegins.fresh,
        fun _ => (makeRoom_keeps_iff p.roomId p.part.kind hsound.positive).1 hkept⟩
    · intro hspares
      obtain ⟨hslot, hroom⟩ := hspares.room hbegins
      rw [makeRoom_eq_self hslot hroom] at hentries hdropped
      refine ⟨hall ▸ hentries, ?_⟩
      rcases hdropped with hdropped | hdropped
      · exact .inl (by simp [hbegins.fresh, hdropped])
      · exact .inr ⟨hbegins.fresh, hdropped⟩

/-- **The first piece of several begins its assembly** where there is room for it. -/
lemma push_begins {m : SplitManifest} (hc : crates.Lawful) {manifest : MediaManifest}
    (hparse : crates.fromSlice m.bytes = .ok manifest) (htotal : 1 < m.total) {now : ℕ}
    (hnow : a.Unexpired now) (hkey : ∀ e ∈ a.entries, e.key ≠ m.key)
    (hslot : ∀ e ∈ a.entries, e.slot ≠ m.slot) (hroom : a.entries.length < a.maxConcurrent) :
    a.push crates (.ok ()) m.roomId (m.piece crates 0) now =
      some ({ a with entries := a.entries ++ [m.entry crates 1 now] }, .ok none) := by
  have hnone : a.position m.roomId m.assemblyId = none := by
    refine List.findIdx?_eq_none_iff.2 fun e he => ?_
    have hne := hkey e he
    simpa [Entry.key, SplitManifest.key] using hne
  have hfirst : 0 < m.total := Nat.lt_trans Nat.zero_lt_one htotal
  have htake := SplitManifest.take_next hparse hfirst now now
  rw [if_pos htotal] at htake
  rw [push, SplitManifest.offer_piece hc hfirst, hnow.expire_eq, hnone]
  dsimp only
  rw [if_neg (not_not.2 rfl), makeRoom_eq_self hslot hroom]
  dsimp only
  rw [accept, finish]
  dsimp only
  rw [List.getElem?_concat_length]
  dsimp only
  rw [SplitManifest.new_eq_entry, htake, Option.map_some]
  dsimp only
  rw [List.set_append_right _ _ (Nat.le_refl _), Nat.sub_self]
  rfl

end PartAssembler

/-! ### A second piece -/

namespace SmallManifest

attribute [local irreducible] json

lemma begun_reached : begun.Reached serde := .push (.new 2 30) ⟨1, piece 0, 0⟩ (.ok ()) _ push_first

lemma begun_unexpired : begun.Unexpired 1 := by
  intro e he
  rw [List.mem_singleton.1 he]
  decide

/-- The same manifest in another room. -/
def elsewhere : SplitManifest := { cut with roomId := 2, assemblyId := 2 }

/-- An assembler that has taken the first piece of each. -/
def both : PartAssembler := { begun with entries := begun.entries ++ [elsewhere.entry serde 1 0] }

lemma both_reached : both.Reached serde := by
  have hkey : ∀ e ∈ begun.entries, e.key ≠ elsewhere.key := by
    intro e he
    rw [List.mem_singleton.1 he]
    exact fun h => absurd (congrArg Prod.fst h) (by decide : (1 : Uuid) ≠ 2)
  have hslot : ∀ e ∈ begun.entries, e.slot ≠ elsewhere.slot := by
    intro e he
    rw [List.mem_singleton.1 he]
    exact fun h => absurd (congrArg Prod.fst h) (by decide : (1 : Uuid) ≠ 2)
  have hnow : begun.Unexpired 0 := by
    intro e he
    rw [List.mem_singleton.1 he]
    decide
  exact .push begun_reached ⟨2, elsewhere.piece serde 0, 0⟩ (.ok ()) _
    (PartAssembler.push_begins lawful (m := elsewhere) fromSlice_json
      (cut_total ▸ Nat.one_lt_two) hnow hkey hslot Nat.one_lt_two)

lemma both_unexpired : both.Unexpired 1 := by
  intro e he
  obtain rfl | rfl : e = cut.entry serde 1 0 ∨ e = elsewhere.entry serde 1 0 := by
    simpa [both, begun] using he
  · decide
  · decide

lemma begun_key (e : Entry) (he : e ∈ begun.entries) : e.key = (1, 1) := by
  rw [List.mem_singleton.1 he]
  rfl

/-- The header of a piece says nothing of its bytes. -/
lemma validateHeader_data (part : ManifestPartPayload) (data : String) :
    validateHeader { part with data } = validateHeader part := rfl

lemma header_data (part : ManifestPartPayload) (data : String) :
    ManifestPartPayload.header { part with data } = part.header := rfl

lemma validateHeader_conflict : validateHeader { piece 0 with data := "AAAA" } = .ok () :=
  (validateHeader_data (piece 0) "AAAA").trans
    (SplitManifest.validateHeader_piece lawful (m := cut) (cut_total ▸ Nat.two_pos))

/-- The first piece again, with other bytes. -/
lemma take_conflict : (cut.entry serde 1 0).take serde { piece 0 with data := "AAAA" } [0, 0, 0] 1 =
    some (cut.entry serde 1 0, .error (.conflict 0)) := by
  have hne : chunk json 50 0 ≠ [0, 0, 0] := fun h => by
    have hlength := congrArg List.length h
    rw [chunk, List.length_take, List.length_drop, json_length] at hlength
    cases hlength
  have hheader : (cut.entry serde 1 0).header = (piece 0).header := SplitManifest.entry_header
  exact Entry.take_conflict 1 (hheader.trans (header_data (piece 0) "AAAA").symm) Nat.zero_lt_one
    (SplitManifest.slice_entry Nat.zero_lt_one (cut_total ▸ Nat.two_pos) 0) hne

/-- The other assembly alone. -/
def kept : PartAssembler := { both with entries := [elsewhere.entry serde 1 0], dropped := [98] }

lemma finish_conflict : both.finish serde 0 { piece 0 with data := "AAAA" } [0, 0, 0] 1 =
    some (kept, .error (.conflict 0)) := by
  have hbytes : (cut.entry serde 1 0).totalBytes = 98 := json_length
  rw [PartAssembler.finish]
  change ((cut.entry serde 1 0).take serde { piece 0 with data := "AAAA" } [0, 0, 0] 1).map _ = _
  rw [take_conflict]
  simp [PartAssembler.swapRemove, hbytes, PartAssembler.new, begun, both, kept, Lib.swapRemove]

lemma push_conflict : both.push serde (.ok ()) 1 { piece 0 with data := "AAAA" } 1 =
    some (kept, .error (.conflict 0)) := by
  have hsize : ¬divCeil maxPartBytes 3 * 4 < "AAAA".utf8ByteSize := by decide
  have hdata : fromBase64 "AAAA" = some [0, 0, 0] := by decide
  have hoffer : both.offer serde 1 { piece 0 with data := "AAAA" } 1 =
      some (.done kept (.error (.conflict 0))) := by
    rw [PartAssembler.offer, both_unexpired.expire_eq, validateHeader_conflict]
    dsimp only
    rw [if_neg hsize, hdata]
    dsimp only
    rw [if_neg (by decide)]
    exact congrArg (Option.map fun out => Offered.done out.1 out.2) finish_conflict
  rw [PartAssembler.push, hoffer]

/-- The second piece with an invalid header. -/
lemma push_header : begun.push serde (.ok ()) 1 { piece 1 with total := 0 } 1 =
    some (begun, .error (.badHeader "piece count out of range")) := by
  rw [PartAssembler.push, PartAssembler.offer, begun_unexpired.expire_eq]
  rfl

end SmallManifest

/-- A piece that differs from the one taken drops its assembly, and the one of the other room
stays. -/
theorem assembly_error_conflict :
    SmallManifest.both.TouchesOwn ⟨1, { SmallManifest.piece 0 with data := "AAAA" }, 1⟩
      SmallManifest.kept ∧ SmallManifest.kept.entries =
      [SmallManifest.elsewhere.entry SmallManifest.serde 1 0] := by
  refine ⟨(PartAssembler.assembly_error SmallManifest.both_reached
    (p := ⟨1, { SmallManifest.piece 0 with data := "AAAA" }, 1⟩) SmallManifest.both_unexpired
      SmallManifest.push_conflict).2 ⟨fun hheader => ?_, fun hbegins => ?_⟩, rfl⟩
  · exact absurd SmallManifest.validateHeader_conflict hheader
  · have hmem : SmallManifest.cut.entry SmallManifest.serde 1 0 ∈ SmallManifest.both.entries :=
      List.mem_cons_self
    exact absurd (SmallManifest.begun_key _ (List.mem_singleton_self _))
      (PartAssembler.own_eq_nil.1 hbegins.fresh _ hmem)

/-- **An error may leave its own assembly behind**: one whose header is invalid. -/
theorem not_assembly_error : ¬∀ (a a' : PartAssembler) (p : PartPush) (err : PartError),
    a.Reached SmallManifest.serde → a.Unexpired p.now →
      a.push SmallManifest.serde (.ok ()) p.roomId p.part p.now = some (a', .error err) →
        a.TouchesOwn p a' := by
  intro hall
  have htouch := hall SmallManifest.begun SmallManifest.begun
    ⟨1, { SmallManifest.piece 1 with total := 0 }, 1⟩ _ SmallManifest.begun_reached
    SmallManifest.begun_unexpired SmallManifest.push_header
  -- the assembly is still there, and it is no other's
  have hmem := htouch.entries.mem_iff.1 (List.mem_singleton_self _)
  exact of_decide_eq_true (List.mem_filter.1 hmem).2
    (SmallManifest.begun_key _ (List.mem_singleton_self _))

end Locast.Protocol
