import Locast.Protocol.SplitManifest
import Mathlib.Data.List.Nodup
import Mathlib.Data.List.Perm.Subperm

/-!
# The pieces of a manifest come back as the manifest

The pieces of one manifest are pushed in order, between repeats of pieces already taken and pieces
of other assemblies (`Feeds`), into an assembler that has taken any pushes before.
-/

namespace Locast.Protocol

open Locast.Lib

variable {crates : PartCrates} {a a' : PartAssembler}

/-! ### Pushes one after the other -/

/-- A push, with the budget's answer in case it asks for a reservation. -/
structure PartTurn where
  push : PartPush
  reserved : Except PartError Unit

namespace PartAssembler

/-- The pushes of a list, with what they return. -/
def pushAll (crates : PartCrates) :
    PartAssembler → List PartTurn → Option (PartAssembler × List Pushed)
  | a, [] => some (a, [])
  | a, t :: turns =>
    match a.push crates t.reserved t.push.roomId t.push.part t.push.now with
    | none => none
    | some (a, result) => (pushAll crates a turns).map fun out => (out.1, result :: out.2)

lemma pushAll_cons {a'' : PartAssembler} {t : PartTurn} {turns : List PartTurn} {result : Pushed}
    {results : List Pushed}
    (hpush : a.push crates t.reserved t.push.roomId t.push.part t.push.now = some (a', result))
    (hall : a'.pushAll crates turns = some (a'', results)) :
    a.pushAll crates (t :: turns) = some (a'', result :: results) := by
  rw [pushAll, hpush]
  dsimp only
  rw [hall, Option.map_some]

/-- The push begins an assembly, and there are too many. -/
def evicts (crates : PartCrates) (a : PartAssembler) (p : PartPush) : Bool :=
  match a.offer crates p.roomId p.part p.now with
  | some (.reserve _ _) => a.maxConcurrent ≤ ((a.expire p.now).retain fun e =>
      !(e.roomId = p.roomId && e.kind = p.part.kind)).entries.length
  | _ => false

/-- No push of the list evicts an assembly. -/
def roomy (crates : PartCrates) : PartAssembler → List PartTurn → Bool
  | _, [] => true
  | a, t :: turns => !a.evicts crates t.push &&
    match a.push crates t.reserved t.push.roomId t.push.part t.push.now with
    | none => true
    | some (a, _) => roomy crates a turns

end PartAssembler

/-- **The pieces in order**, of the assembly `assemblyId` in the room, from the `k`-th on, the last
one before it at `last`: between them there are repeats of pieces already taken, and pushes for
other assemblies of other rooms or kinds.  Behind the last piece there are only pushes of others. -/
inductive Feeds (roomId assemblyId : Uuid) (kind : ManifestPartKind)
    (pieces : List ManifestPartPayload) (ttl : ℕ) : ℕ → ℕ → List PartTurn → Prop
  | done (last : ℕ) : Feeds roomId assemblyId kind pieces ttl pieces.length last []
  | next {k last now : ℕ} {piece : ManifestPartPayload} {reserved : Except PartError Unit}
      {turns : List PartTurn} (hpiece : pieces[k]? = some piece) (hgap : 0 < k → now - last < ttl)
      (hreserved : k = 0 → reserved = .ok ())
      (rest : Feeds roomId assemblyId kind pieces ttl (k + 1) now turns) :
      Feeds roomId assemblyId kind pieces ttl k last (⟨⟨roomId, piece, now⟩, reserved⟩ :: turns)
  | again {k last now i : ℕ} {piece : ManifestPartPayload} {reserved : Except PartError Unit}
      {turns : List PartTurn} (hik : i < k) (hk : k < pieces.length)
      (hpiece : pieces[i]? = some piece)
      (rest : Feeds roomId assemblyId kind pieces ttl k last turns) :
      Feeds roomId assemblyId kind pieces ttl k last (⟨⟨roomId, piece, now⟩, reserved⟩ :: turns)
  | other {k last : ℕ} {t : PartTurn} {turns : List PartTurn}
      (hkey : t.push.key ≠ (roomId, assemblyId))
      (hslot : (t.push.roomId, t.push.part.kind) ≠ (roomId, kind))
      (rest : Feeds roomId assemblyId kind pieces ttl k last turns) :
      Feeds roomId assemblyId kind pieces ttl k last (t :: turns)

/-- **Every push of the pieces is `Ok`**, and the last piece, and no other, returns the manifest. -/
def Reassembles (key : Uuid × Uuid) (pieces : List ManifestPartPayload) (m : AssembledManifest)
    (turns : List PartTurn) (results : List Pushed) : Prop :=
  ∃ (before after : List PartTurn) (last : PartTurn) (earlier later : List Pushed),
    turns = before ++ last :: after ∧ results = earlier ++ .ok (some m) :: later ∧
    last.push.key = key ∧ pieces.getLast? = some last.push.part ∧
    List.Forall₂ (fun t r => t.push.key = key → r = .ok none) before earlier ∧
    ∀ t ∈ after, t.push.key ≠ key

/-! ### What a push keeps -/

namespace PartAssembler

/-- What a push makes of the entries of others. -/
structure Keeps (a : PartAssembler) (p : PartPush) (a' : PartAssembler) : Prop where
  sound : a'.Sound
  ttl : a'.ttl = a.ttl
  fresh : ∀ e ∈ a'.entries, e.key = p.key ∨ e ∈ a.entries
  kept : ∀ e ∈ a.entries, e.key ≠ p.key → e.slot ≠ (p.roomId, p.part.kind) →
    p.now - e.lastActivity < a.ttl → e ∈ a'.entries

/-- Without evictions `begin` only replaces. -/
lemma makeRoom_eq {roomId : Uuid} {kind : ManifestPartKind}
    (h :
    ¬a.maxConcurrent ≤ (a.retain fun e => !(e.roomId = roomId && e.kind = kind)).entries.length) :
    a.makeRoom roomId kind = a.retain fun e => !(e.roomId = roomId && e.kind = kind) := by
  unfold makeRoom
  dsimp only
  cases hn : (a.retain fun e => !(e.roomId = roomId && e.kind = kind)).entries.length with
  | zero => rfl
  | succ n =>
    rw [evict, if_neg]
    exact h

/-- The end of a push leaves the entries of others. -/
lemma Finishes.keeps {e e' : Entry} {part : ManifestPartPayload} {piece : List UInt8} {now : ℕ}
    {result : Pushed} {others : List Entry}
    (hf : Finishes crates a e part piece now a' result e' others) {x : Entry} (hx : x ∈ a.entries)
    (hne : x.key ≠ e.key) : x ∈ a'.entries := by
  have hother : x ∈ others := by
    rcases List.mem_cons.1 (hf.before.mem_iff.1 hx) with rfl | hother
    · exact absurd rfl hne
    · exact hother
  refine hf.after.mem_iff.2 ?_
  split
  · exact List.mem_cons_of_mem _ hother
  · exact hother

lemma Finishes.fresh {e e' : Entry} {part : ManifestPartPayload} {piece : List UInt8} {now : ℕ}
    {result : Pushed} {others : List Entry}
    (hf : Finishes crates a e part piece now a' result e' others) {x : Entry}
    (hx : x ∈ a'.entries) :
    x.key = e.key ∨ x ∈ a.entries := by
  rcases hf.mem hx with ⟨rfl, -⟩ | hx
  · exact .inl hf.takes.key_eq
  · exact .inr (hf.mem_before hx)

/-- **A push leaves the assemblies of others**, unless it evicts one. -/
lemma Sound.push_keeps (ha : a.Sound) (p : PartPush) (reserved : Except PartError Unit)
    (hroom : a.evicts crates p = false) :
    ∃ a' result, a.push crates reserved p.roomId p.part p.now = some (a', result) ∧
      Keeps a p a' := by
  have hexpire : Sheds a (a.expire p.now) _ := retain_sheds a _
  have hsound := ha.sheds hexpire
  have halive {e : Entry} (he : e ∈ a.entries) (hlive : p.now - e.lastActivity < a.ttl) :
      e ∈ (a.expire p.now).entries := List.mem_filter.2 ⟨he, by simpa using hlive⟩
  obtain ⟨offered, hoffer, hcase⟩ := ha.offers crates p
  simp only [evicts, hoffer] at hroom
  simp only [PartAssembler.push, hoffer]
  cases hcase with
  | @refused a' gone hs hkept err =>
    exact ⟨_, _, rfl, hsound.sheds hs, hs.ttl, fun e he => .inr (hexpire.mem (hs.mem he)),
      fun e he hkey _ hlive => hkept e (halive he hlive) hkey⟩
  | @continues a' piece pos result hvalid hpiece hpos hfinish =>
    obtain ⟨e, he, hkey⟩ := position_eq_some hpos
    obtain ⟨e', others, hf⟩ := finish_spec he hfinish
    refine ⟨_, _, rfl, hf.sound hsound, hf.ttl, fun x hx => ?_, fun x hx hne _ hlive =>
      hf.keeps (halive hx hlive) (hkey ▸ hne)⟩
    rcases hf.fresh hx with hx | hx
    · exact .inl (hx.trans hkey)
    · exact .inr (hexpire.mem hx)
  | @begins piece hvalid hpiece hpos =>
    have hfew : ¬(a.expire p.now).maxConcurrent ≤ ((a.expire p.now).retain fun e =>
        !(e.roomId = p.roomId && e.kind = p.part.kind)).entries.length := of_decide_eq_false hroom
    have hreplace := makeRoom_eq hfew
    have hs : Sheds (a.expire p.now) ((a.expire p.now).makeRoom p.roomId p.part.kind) _ :=
      hreplace ▸ retain_sheds (a.expire p.now) _
    have hkept {e : Entry} (he : e ∈ a.entries) (hslot : e.slot ≠ (p.roomId, p.part.kind))
        (hlive : p.now - e.lastActivity < a.ttl) :
        e ∈ ((a.expire p.now).makeRoom p.roomId p.part.kind).entries := by
      rw [hreplace]
      refine List.mem_filter.2 ⟨halive he hlive, ?_⟩
      simpa [Entry.slot, imp_iff_not_or] using hslot
    dsimp only
    cases reserved with
    | error err =>
      exact ⟨_, _, rfl, hsound.sheds hs, hs.ttl, fun e he => .inr (hexpire.mem (hs.mem he)),
        fun e he _ hslot hlive => hkept he hslot hlive⟩
    | ok =>
      have hspec := makeRoom_spec (a.expire p.now) p.roomId p.part.kind hsound.positive
      have hbegun := (hsound.sheds hs).begun (by rw [hs.limit]; exact hspec.2.2)
        (fun e he => position_eq_none hpos e (hs.mem he)) hspec.2.1
      obtain ⟨a', result, e', others, haccept, hf, -⟩ := hbegun.accepts crates piece
      refine ⟨a', result, haccept, hf.sound hbegun, hf.ttl.trans hs.ttl, fun x hx => ?_,
        fun x hx hne hslot hlive => hf.keeps (List.mem_append_left _ (hkept hx hslot hlive)) hne⟩
      rcases hf.fresh hx with hx | hx
      · exact .inl hx
      · rcases List.mem_append.1 hx with hx | hx
        · exact .inr (hexpire.mem (hs.mem hx))
        · rw [List.mem_singleton.1 hx]
          exact .inl rfl

/-- **A push opens no slot but its own**, and the limit stays. -/
lemma Sound.push_slot (ha : a.Sound) {p : PartPush} {reserved : Except PartError Unit}
    {result : Pushed} (h : a.push crates reserved p.roomId p.part p.now = some (a', result)) :
    a'.maxConcurrent = a.maxConcurrent ∧ ∀ e ∈ a'.entries,
      e.slot = (p.roomId, p.part.kind) ∨ ∃ x ∈ a.entries, x.slot = e.slot := by
  have hexpire : Sheds a (a.expire p.now) _ := retain_sheds a _
  obtain ⟨offered, hoffer, hcase⟩ := ha.offers crates p
  simp only [PartAssembler.push, hoffer] at h
  cases hcase with
  | refused hs =>
    cases h
    exact ⟨hs.limit, fun e he => .inr ⟨e, hexpire.mem (hs.mem he), rfl⟩⟩
  | continues hvalid hpiece hpos hfinish =>
    cases h
    obtain ⟨x, hx, -⟩ := position_eq_some hpos
    obtain ⟨e', others, hf⟩ := finish_spec hx hfinish
    refine ⟨hf.limit, fun e he => ?_⟩
    rcases hf.mem he with ⟨rfl, -⟩ | he
    · exact .inr ⟨x, hexpire.mem (List.mem_of_getElem? hx), hf.takes.slot_eq.symm⟩
    · exact .inr ⟨e, hexpire.mem (hf.mem_before he), rfl⟩
  | @begins piece hvalid hpiece hpos =>
    obtain ⟨⟨gone, hs⟩, hslot, hroom⟩ :=
      makeRoom_spec (a.expire p.now) p.roomId p.part.kind (ha.sheds hexpire).positive
    dsimp only at h
    cases reserved with
    | error err =>
      cases h
      exact ⟨hs.limit, fun e he => .inr ⟨e, hexpire.mem (hs.mem he), rfl⟩⟩
    | ok =>
      have hbegun := ((ha.sheds hexpire).sheds hs).begun (by rwa [hs.limit])
        (fun x hx => position_eq_none hpos x (hs.mem hx)) hslot
      obtain ⟨a₁, r, e', others, haccept, hf, hold⟩ := hbegun.accepts crates piece
      cases haccept.symm.trans h
      refine ⟨hf.limit.trans hs.limit, fun e he => ?_⟩
      rcases hf.mem he with ⟨rfl, -⟩ | he
      · exact .inl hf.takes.slot_eq
      · exact .inr ⟨e, hexpire.mem (hs.mem (hold.mem_iff.1 he)), rfl⟩

/-- **With a place for every slot, nothing is evicted.** -/
lemma Sound.roomy_of_slots (crates : PartCrates) {slots : List (Uuid × ManifestPartKind)}
    {turns : List PartTurn} (ha : a.Sound) (hlimit : slots.length ≤ a.maxConcurrent)
    (hslots : ∀ e ∈ a.entries, e.slot ∈ slots)
    (hturns : ∀ t ∈ turns, (t.push.roomId, t.push.part.kind) ∈ slots) :
    a.roomy crates turns = true := by
  induction turns generalizing a with
  | nil => rfl
  | cons t turns ih =>
    obtain ⟨p, reserved⟩ := t
    have hslot := hturns _ List.mem_cons_self
    have hfew : ((a.expire p.now).retain fun e =>
        !(e.roomId = p.roomId && e.kind = p.part.kind)).entries.length < a.maxConcurrent := by
      have hsheds := (retain_sheds a fun e => p.now - e.lastActivity < a.ttl).trans
        (retain_sheds _ fun e => !(e.roomId = p.roomId && e.kind = p.part.kind))
      have hnodup := (ha.sheds hsheds).slots
      have hsub : (((a.expire p.now).retain fun e =>
          !(e.roomId = p.roomId && e.kind = p.part.kind)).entries.map Entry.slot) ⊆
            slots.erase (p.roomId, p.part.kind) := by
        intro k hk
        obtain ⟨e, he, rfl⟩ := List.mem_map.1 hk
        refine (List.mem_erase_of_ne fun heq => ?_).2 (hslots e (hsheds.mem he))
        have hother := (List.mem_filter.1 he).2
        simp only [Entry.slot, Prod.mk.injEq] at heq
        simp [heq] at hother
      have hle := (List.subperm_of_subset hnodup hsub).length_le
      rw [List.length_map, List.length_erase_of_mem hslot] at hle
      have hpos := List.length_pos_of_mem hslot
      refine Nat.lt_of_le_of_lt (m := slots.length - 1) hle ?_
      omega
    have hstays : a.evicts crates p = false := by
      unfold evicts
      split
      · exact decide_eq_false (Nat.not_le.2 hfew)
      · rfl
    rw [roomy, hstays, Bool.not_false, Bool.true_and]
    split
    · rfl
    · rename_i a' result hpush
      obtain ⟨hsame, hopened⟩ := ha.push_slot hpush
      refine ih (ha.push hpush).1 (hsame ▸ hlimit) (fun e he => ?_) fun t ht =>
        hturns t (List.mem_cons_of_mem _ ht)
      rcases hopened e he with hown | ⟨x, hx, hsame⟩
      · exact hown ▸ hslot
      · exact hsame ▸ hslots x hx

lemma Sound.pushAll {turns : List PartTurn} {results : List Pushed} (ha : a.Sound)
    (h : a.pushAll crates turns = some (a', results)) : a'.Sound ∧ a'.ttl = a.ttl := by
  induction turns generalizing a results with
  | nil =>
    cases h
    exact ⟨ha, rfl⟩
  | cons t turns ih =>
    rw [PartAssembler.pushAll] at h
    split at h
    · cases h
    · rename_i a₁ result hpush
      obtain ⟨⟨a₂, rest⟩, hall, h⟩ := Option.map_eq_some_iff.1 h
      cases h
      obtain ⟨hsound, httl⟩ := ha.push hpush
      obtain ⟨hsound', httl'⟩ := ih hsound hall
      exact ⟨hsound', httl'.trans httl⟩

end PartAssembler

/-! ### The pieces of one manifest -/

namespace SplitManifest

variable {m : SplitManifest} {k last now : ℕ}

/-- An assembler that has taken `k` of the pieces, the last of them at `last`. -/
structure Held (crates : PartCrates) (m : SplitManifest) (a : PartAssembler)
    (k last : ℕ) : Prop where
  sound : a.Sound
  fresh : k = 0 → ∀ e ∈ a.entries, e.key ≠ m.key
  taken : 0 < k → k < m.total → m.entry crates k last ∈ a.entries

/-- A piece of an assembly that is in flight. -/
lemma push_held (hc : crates.Lawful) {i : ℕ} (hi : i < m.total) (ha : a.Sound)
    (hmem : m.entry crates k last ∈ a.entries) (hlive : now - last < a.ttl)
    {e' : Entry} {result : Pushed}
    (htake : (m.entry crates k last).take crates (m.piece crates i)
      (chunk m.bytes m.partSize i) now = some (e', result)) (reserved : Except PartError Unit) :
    ∃ a', a.push crates reserved m.roomId (m.piece crates i) now = some (a', result) ∧ a'.Sound ∧
      a'.ttl = a.ttl ∧ (result = .ok none → e' ∈ a'.entries) := by
  have hsound : (a.expire now).Sound := ha.sheds (PartAssembler.retain_sheds a _)
  have halive : m.entry crates k last ∈ (a.expire now).entries :=
    List.mem_filter.2 ⟨hmem, decide_eq_true hlive⟩
  have hoffer := offer_piece hc hi a now
  cases hpos : (a.expire now).position m.roomId m.assemblyId with
  | none => exact absurd rfl (PartAssembler.position_eq_none hpos _ halive)
  | some pos =>
    obtain ⟨e, he, hkey⟩ := PartAssembler.position_eq_some hpos
    have heq : e = m.entry crates k last :=
      List.inj_on_of_nodup_map hsound.keys (List.mem_of_getElem? he) halive hkey
    obtain ⟨⟨a', r⟩, hfinish⟩ := Option.isSome_iff_exists.1 (hsound.finish_isSome crates
      (List.getElem?_eq_some_iff.1 he).1 (m.piece crates i) (chunk m.bytes m.partSize i) now)
    obtain ⟨e₁, others, hf⟩ := PartAssembler.finish_spec he hfinish
    have htaken := hf.take_eq
    rw [heq, htake] at htaken
    cases htaken
    rw [hpos] at hoffer
    simp only [hfinish, Option.map_some] at hoffer
    refine ⟨a', by rw [PartAssembler.push, hoffer], hf.sound hsound, hf.ttl, fun hnone => ?_⟩
    have hafter := hf.after
    rw [if_pos hnone] at hafter
    exact hafter.mem_iff.2 List.mem_cons_self

/-- **A repeat changes nothing.** -/
lemma Held.again (hc : crates.Lawful) (h : Held crates m a k last) {i : ℕ} (hik : i < k)
    (hk : k < m.total) (hlive : now - last < a.ttl) (reserved : Except PartError Unit) :
    ∃ a', a.push crates reserved m.roomId (m.piece crates i) now = some (a', .ok none) ∧
      a'.ttl = a.ttl ∧ Held crates m a' k last := by
  have hpos : 0 < k := by omega
  have hi : i < m.total := by omega
  obtain ⟨a', hpush, hsound, httl, hmem⟩ := push_held hc hi h.sound (h.taken hpos hk) hlive
    (take_again hik hi last now) reserved
  exact ⟨a', hpush, httl, hsound, fun hzero => by omega, fun _ _ => hmem rfl⟩

/-- **The next piece is taken.** -/
lemma Held.next (hc : crates.Lawful) {manifest : MediaManifest}
    (hparse : crates.fromSlice m.bytes = .ok manifest) (h : Held crates m a k last)
    (hk : k < m.total) (hlive : 0 < k → now - last < a.ttl) {reserved : Except PartError Unit}
    (hreserved : k = 0 → reserved = .ok ()) :
    ∃ a', a.push crates reserved m.roomId (m.piece crates k) now = some (a', .ok
        (if k + 1 < m.total then none else
          some ⟨m.roomId, m.kind, m.version, m.publishedAtMs, manifest⟩)) ∧
      a'.ttl = a.ttl ∧ Held crates m a' (k + 1) now := by
  rcases Nat.eq_zero_or_pos k with rfl | hpos
  · let p : PartPush := ⟨m.roomId, m.piece crates 0, now⟩
    have hexpire : PartAssembler.Sheds a (a.expire now) _ := PartAssembler.retain_sheds a _
    have hsound := h.sound.sheds hexpire
    have hfresh (e : Entry) (he : e ∈ (a.expire now).entries) : e.key ≠ m.key :=
      h.fresh rfl e (hexpire.mem he)
    have hoffer := offer_piece hc hk a now
    cases hpos : (a.expire now).position m.roomId m.assemblyId with
    | some pos =>
      obtain ⟨e, he, hkey⟩ := PartAssembler.position_eq_some hpos
      exact absurd hkey (hfresh e (List.mem_of_getElem? he))
    | none =>
      rw [hpos] at hoffer
      obtain ⟨⟨gone, hs⟩, hslot, hroom⟩ :=
        PartAssembler.makeRoom_spec (a.expire now) m.roomId m.kind hsound.positive
      have hbegun : (((a.expire now).makeRoom m.roomId m.kind).begun p).Sound :=
        (hsound.sheds hs).begun (by rwa [hs.limit]) (fun e he => hfresh e (hs.mem he)) hslot
      obtain ⟨a', result, e', others, haccept, hf, -⟩ :=
        hbegun.accepts crates (chunk m.bytes m.partSize 0)
      have htaken : (Entry.new m.roomId (m.piece crates 0) now).take crates (m.piece crates 0)
          (chunk m.bytes m.partSize 0) now = some (e', result) := hf.take_eq
      rw [new_eq_entry, take_next hparse hk] at htaken
      cases htaken
      refine ⟨a', ?_, hf.ttl.trans hs.ttl, hf.sound hbegun, fun hzero => by
        omega, fun _ hmore => ?_⟩
      · rw [PartAssembler.push, hoffer, hreserved rfl]
        exact haccept
      · have hafter := hf.after
        rw [if_pos hmore, if_pos rfl] at hafter
        exact hafter.mem_iff.2 List.mem_cons_self
  · obtain ⟨a', hpush, hsound, httl, hmem⟩ := push_held hc hk h.sound (h.taken hpos hk) (hlive hpos)
      (take_next hparse hk last now) reserved
    exact ⟨a', hpush, httl, hsound, fun hzero => by
      omega, fun _ hmore => hmem (by rw [if_pos hmore])⟩

end SplitManifest

/-! ### The whole run -/

section Run

variable {roomId assemblyId : Uuid} {kind : ManifestPartKind} {pieces : List ManifestPartPayload}
  {ttl k last : ℕ} {turns : List PartTurn} {t : PartTurn} {results : List Pushed}

lemma Reassembles.cons {key : Uuid × Uuid} {done : AssembledManifest} {r : Pushed}
    (h : Reassembles key pieces done turns results) (hr : t.push.key = key → r = .ok none) :
    Reassembles key pieces done (t :: turns) (r :: results) := by
  obtain ⟨before, after, final, earlier, later, rfl, rfl, hkey, hlast, hbefore, hafter⟩ := h
  exact ⟨t :: before, after, final, r :: earlier, later, rfl, rfl, hkey, hlast,
    .cons hr hbefore, hafter⟩

/-- Up to the next piece, the clock stays within the ttl. -/
lemma Feeds.alive (hf : Feeds roomId assemblyId kind pieces ttl k last turns)
    (hclock : (turns.map (·.push.now)).Pairwise (· ≤ ·)) (hpos : 0 < k) (hk : k < pieces.length)
    (ht : turns.head? = some t) : t.push.now - last < ttl := by
  -- a push before the next piece is no later than what follows
  have hstep {t' : PartTurn} {rest : List PartTurn} {k last : ℕ} (hk : k < pieces.length)
      (hrest : Feeds roomId assemblyId kind pieces ttl k last rest)
      (ih : ∀ {t : PartTurn}, rest.head? = some t → t.push.now - last < ttl)
      (hclock : ((t' :: rest).map (·.push.now)).Pairwise (· ≤ ·)) : t'.push.now - last < ttl := by
    cases rest with
    | nil =>
      cases hrest
      exact absurd hk (Nat.lt_irrefl _)
    | cons u rest =>
      have hle : t'.push.now ≤ u.push.now :=
        (List.pairwise_cons.1 hclock).1 u.push.now List.mem_cons_self
      have hlive := ih rfl
      omega
  induction hf generalizing t with
  | done => cases ht
  | next hpiece hgap =>
    cases ht
    exact hgap hpos
  | again hik _ _ rest ih =>
    cases ht
    exact hstep hk rest (fun h => ih (List.pairwise_cons.1 hclock).2 hpos hk h) hclock
  | other _ _ rest ih =>
    cases ht
    exact hstep hk rest (fun h => ih (List.pairwise_cons.1 hclock).2 hpos hk h) hclock

/-- **The run of the pieces.** -/
lemma Feeds.reassembles {m : SplitManifest} {manifest : MediaManifest} (hc : crates.Lawful)
    (hparse : crates.fromSlice m.bytes = .ok manifest)
    (hf : Feeds m.roomId m.assemblyId m.kind ((List.range m.total).map (m.piece crates)) ttl k last
      turns) (hI : m.Held crates a k last) (httl : a.ttl = ttl)
    (hclock : (turns.map (·.push.now)).Pairwise (· ≤ ·)) (hroomy : a.roomy crates turns = true) :
    ∃ a' results, a.pushAll crates turns = some (a', results) ∧
      if k < m.total then Reassembles m.key ((List.range m.total).map (m.piece crates))
        ⟨m.roomId, m.kind, m.version, m.publishedAtMs, manifest⟩ turns results
      else ∀ t ∈ turns, t.push.key ≠ m.key := by
  have hlength : ((List.range m.total).map (m.piece crates)).length = m.total := by simp
  have hindex {i : ℕ} {piece : ManifestPartPayload}
      (h : ((List.range m.total).map (m.piece crates))[i]? = some piece) :
      i < m.total ∧ piece = m.piece crates i := by
    have hi := (List.getElem?_eq_some_iff.1 h).1
    rw [hlength] at hi
    simp only [List.getElem?_map, List.getElem?_range hi, Option.map_some, Option.some.injEq] at h
    exact ⟨hi, h.symm⟩
  induction hf generalizing a with
  | done last =>
    refine ⟨a, [], rfl, ?_⟩
    rw [if_neg (by omega)]
    intro t ht
    cases ht
  | @next k last now piece reserved turns hpiece hgap hreserved rest ih =>
    obtain ⟨hk, rfl⟩ := hindex hpiece
    obtain ⟨a', hpush, httl', hI'⟩ := hI.next hc hparse hk (httl ▸ hgap) hreserved
    simp only [PartAssembler.roomy, hpush, Bool.and_eq_true] at hroomy
    obtain ⟨a'', results, hall, hrest⟩ :=
      ih hI' (httl'.trans httl) (List.pairwise_cons.1 hclock).2 hroomy.2
    refine ⟨a'', _, PartAssembler.pushAll_cons hpush hall, ?_⟩
    rw [if_pos hk]
    by_cases hmore : k + 1 < m.total
    · rw [if_pos hmore] at hrest ⊢
      exact hrest.cons fun _ => rfl
    · rw [if_neg hmore] at hrest ⊢
      refine ⟨[], turns, _, [], results, rfl, rfl, rfl, ?_, .nil, hrest⟩
      have hlast : m.total - 1 = k := by omega
      rw [List.getLast?_eq_getElem?, hlength, hlast, hpiece]
  | @again k last now i piece reserved turns hik hk hpiece rest ih =>
    obtain ⟨hi, rfl⟩ := hindex hpiece
    have hk' : k < m.total := hlength ▸ hk
    have hlive := (Feeds.again hik hk hpiece rest).alive hclock (by omega) hk rfl
    obtain ⟨a', hpush, httl', hI'⟩ := hI.again hc hik hk' (httl ▸ hlive) reserved
    simp only [PartAssembler.roomy, hpush, Bool.and_eq_true] at hroomy
    obtain ⟨a'', results, hall, hrest⟩ :=
      ih hI' (httl'.trans httl) (List.pairwise_cons.1 hclock).2 hroomy.2
    refine ⟨a'', _, PartAssembler.pushAll_cons hpush hall, ?_⟩
    rw [if_pos hk'] at hrest ⊢
    exact hrest.cons fun _ => rfl
  | @other k last t turns hkey hslot rest ih =>
    simp only [PartAssembler.roomy, Bool.and_eq_true, Bool.not_eq_true'] at hroomy
    obtain ⟨a', result, hpush, hkeeps⟩ := hI.sound.push_keeps t.push t.reserved hroomy.1
    rw [hpush] at hroomy
    have hI' : m.Held crates a' k last := by
      refine ⟨hkeeps.sound, fun hzero e he => ?_, fun hpos hk => ?_⟩
      · rcases hkeeps.fresh e he with he | he
        · exact he ▸ hkey
        · exact hI.fresh hzero e he
      · have hlive := (Feeds.other hkey hslot rest).alive hclock hpos (by rwa [hlength]) rfl
        exact hkeeps.kept _ (hI.taken hpos hk) (Ne.symm hkey) (Ne.symm hslot) (httl ▸ hlive)
    obtain ⟨a'', results, hall, hrest⟩ :=
      ih hI' (hkeeps.ttl.trans httl) (List.pairwise_cons.1 hclock).2 hroomy.2
    refine ⟨a'', _, PartAssembler.pushAll_cons hpush hall, ?_⟩
    split at hrest
    · rename_i hk
      rw [if_pos hk]
      exact hrest.cons fun h => absurd h hkey
    · rename_i hk
      rw [if_neg hk]
      intro u hu
      rcases List.mem_cons.1 hu with rfl | hu
      · exact hkey
      · exact hrest u hu

end Run

/-- A split that succeeds. -/
lemma splitManifestBytes_spec {bytes : List UInt8} {kind : ManifestPartKind}
    {version publishedAtMs : ℤ} {assemblyId : Uuid} {partSize : ℕ}
    {pieces : List ManifestPartPayload}
    (h : splitManifestBytes crates bytes kind version publishedAtMs assemblyId partSize =
      .ok pieces)
    (hpublish : kind = .publish → version = 0 ∧ publishedAtMs = 0) (roomId : Uuid) :
    ∃ m : SplitManifest, m.roomId = roomId ∧ m.assemblyId = assemblyId ∧ m.kind = kind ∧
      m.version = version ∧ m.publishedAtMs = publishedAtMs ∧ m.bytes = bytes ∧
      pieces = (List.range m.total).map (m.piece crates) := by
  unfold splitManifestBytes at h
  split at h
  · cases h
  rename_i hparams
  split at h
  · cases h
  rename_i hbytes
  split at h
  · cases h
  rename_i hparts
  cases h
  simp only [not_or] at hparams
  exact ⟨⟨roomId, assemblyId, kind, version, publishedAtMs, partSize, bytes, hparams.1,
    Nat.le_of_not_lt hbytes, Nat.pos_of_ne_zero hparams.2.1, Nat.le_of_not_lt hparams.2.2,
    Nat.le_of_not_lt hparts, hpublish⟩, rfl, rfl, rfl, rfl, rfl, rfl, rfl⟩

/-- **The round trip.**  After any pushes that have left no entry of the assembly, its pieces in
order, with repeats and with pieces of other assemblies between them, come back as the manifest:
every push of them is `Ok`, and the last one returns it. -/
theorem manifest_part_round_trip (crates : PartCrates) (hc : crates.Lawful)
    {manifest : MediaManifest} {bytes : List UInt8} {kind : ManifestPartKind}
    {version publishedAtMs : ℤ} {assemblyId : Uuid}
    {partSize : ℕ} {pieces : List ManifestPartPayload}
    (hencode : encodeManifest crates manifest = .ok bytes)
    (hsplit : splitManifestBytes crates bytes kind version publishedAtMs assemblyId partSize =
      .ok pieces)
    (hpublish : kind = .publish → version = 0 ∧ publishedAtMs = 0) {maxConcurrent ttl : ℕ}
    {earlier turns : List PartTurn} {before : List Pushed} {a : PartAssembler} {roomId : Uuid}
    (hearlier : (PartAssembler.new maxConcurrent ttl).pushAll crates earlier = some (a, before))
    (hfresh : ∀ e ∈ a.entries, e.key ≠ (roomId, assemblyId))
    (hfeeds : Feeds roomId assemblyId kind pieces ttl 0 0 turns)
    (hclock : (turns.map (·.push.now)).Pairwise (· ≤ ·)) (hroomy : a.roomy crates turns = true) :
    ∃ a' results, a.pushAll crates turns = some (a', results) ∧
      Reassembles (roomId, assemblyId) pieces ⟨roomId, kind, version, publishedAtMs, manifest⟩ turns
        results := by
  obtain ⟨m, rfl, rfl, rfl, rfl, rfl, rfl, rfl⟩ := splitManifestBytes_spec hsplit hpublish roomId
  have hparse : crates.fromSlice m.bytes = .ok manifest := by
    unfold encodeManifest at hencode
    split at hencode
    · cases hencode
    · rename_i bytes hvec
      split at hencode
      · cases hencode
      · cases hencode
        exact hc.fromSlice_toVec manifest _ hvec
  obtain ⟨hsound, httl⟩ := (PartAssembler.sound_new maxConcurrent ttl).pushAll hearlier
  have hheld : m.Held crates a 0 0 :=
    ⟨hsound, fun _ => hfresh, fun hpos => absurd hpos (Nat.lt_irrefl 0)⟩
  obtain ⟨a', results, hall, h⟩ := hfeeds.reassembles hc hparse hheld httl hclock hroomy
  rw [if_pos m.total_pos] at h
  exact ⟨a', results, hall, h⟩

/-! ### Two pieces -/

namespace SmallManifest

attribute [local irreducible] json

def turn (roomId : Uuid) (piece : ManifestPartPayload) (now : ℕ) : PartTurn :=
  ⟨⟨roomId, piece, now⟩, .ok ()⟩

/-- Two pieces, with a repeat of the first and the first piece of another assembly between them. -/
def turns : List PartTurn :=
  [turn 1 (piece 0) 0, turn 2 (piece 0) 1, turn 1 (piece 0) 2, turn 1 (piece 1) 3]

lemma turns_roomy : (PartAssembler.new 2 30).roomy serde turns = true :=
  (PartAssembler.sound_new 2 30).roomy_of_slots serde
    (show [(1, .published), (2, .published)].length ≤ 2 from Nat.le_refl 2) nofun
      (by simp [turns, turn, piece, pieceOf])

lemma turns_feed : Feeds 1 1 .published [piece 0, piece 1] 30 0 0 turns :=
  .next rfl (fun h => absurd h (Nat.lt_irrefl 0)) (fun _ => rfl) <|
    .other (by decide) (by decide) <| .again Nat.zero_lt_one (by decide) rfl <|
      .next rfl (fun _ => by decide) (fun h => absurd h (by decide)) (.done 3)

lemma pushAll_nil : (PartAssembler.new 2 30).pushAll serde [] = some (PartAssembler.new 2 30, []) :=
  rfl

lemma encoded : encodeManifest serde manifest = .ok json := by
  have hvec : serde.toVec manifest = .ok json := by simp only [serde, if_true]
  rw [encodeManifest, hvec]
  dsimp only
  rw [if_neg (json_length ▸ by decide)]

lemma split : splitManifestBytes serde json .published 3 99 1 50 = .ok [piece 0, piece 1] := by
  have hnil : json ≠ [] := cut.bytes_ne_nil
  have hbytes : json.length ≤ maxAssembledBytes := cut.bytes_le
  have hparts : divCeil json.length 50 = 2 := cut_total
  rw [splitManifestBytes, if_neg (by simp [hnil, maxPartBytes]),
    if_neg (Nat.not_lt.2 hbytes), hparts, if_neg (by decide)]
  rfl

end SmallManifest

/-- The second piece returns the manifest. -/
theorem manifest_part_round_trip_small : ∃ a results,
    (PartAssembler.new 2 30).pushAll SmallManifest.serde SmallManifest.turns = some (a, results) ∧
      Reassembles (1, 1) [SmallManifest.piece 0, SmallManifest.piece 1]
        ⟨1, .published, 3, 99, SmallManifest.manifest⟩ SmallManifest.turns results :=
  manifest_part_round_trip SmallManifest.serde SmallManifest.lawful SmallManifest.encoded
    SmallManifest.split (fun h => by cases h) SmallManifest.pushAll_nil
      (fun e he => by cases he) SmallManifest.turns_feed
    (by decide) SmallManifest.turns_roomy

/-- **A repeat of the last piece is refused**: its assembly is complete and gone. -/
theorem not_manifest_part_round_trip :
    encodeManifest SmallManifest.serde SmallManifest.manifest = .ok SmallManifest.json ∧
      splitManifestBytes SmallManifest.serde SmallManifest.json .published 3 99 1 50 =
        .ok [SmallManifest.piece 0, SmallManifest.piece 1] ∧
      ∃ a, (PartAssembler.new 2 30).pushAll SmallManifest.serde
          [SmallManifest.turn 1 (SmallManifest.piece 0) 0,
            SmallManifest.turn 1 (SmallManifest.piece 1) 0,
            SmallManifest.turn 1 (SmallManifest.piece 1) 1] =
        some (a, [.ok none, .ok (some ⟨1, .published, 3, 99, SmallManifest.manifest⟩),
          .error (.outOfOrder 0 1)]) := by
  have hsecond : SmallManifest.begun.push SmallManifest.serde (.ok ()) 1 (SmallManifest.piece 1) 0 =
      some ({ PartAssembler.new 2 30 with dropped := [98] },
        .ok (some ⟨1, .published, 3, 99, SmallManifest.manifest⟩)) := by
    rw [PartAssembler.push, SmallManifest.offer_second]
  have hthird : ({ PartAssembler.new 2 30 with dropped := [98] } : PartAssembler).push
      SmallManifest.serde (.ok ()) 1 (SmallManifest.piece 1) 1 =
        some ({ PartAssembler.new 2 30 with dropped := [98] }, .error (.outOfOrder 0 1)) := by
    have hoffer := SplitManifest.offer_piece SmallManifest.lawful (m := SmallManifest.cut)
      (SmallManifest.cut_total ▸ Nat.one_lt_two) { PartAssembler.new 2 30 with dropped := [98] } 1
    rw [PartAssembler.push, show PartAssembler.offer SmallManifest.serde _ 1
      (SmallManifest.piece 1) 1 = _ from hoffer]
    rfl
  exact ⟨SmallManifest.encoded, SmallManifest.split, _,
    PartAssembler.pushAll_cons SmallManifest.push_first
      (PartAssembler.pushAll_cons hsecond (PartAssembler.pushAll_cons hthird rfl))⟩

end Locast.Protocol
