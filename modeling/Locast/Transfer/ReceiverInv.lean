import Locast.Transfer.MultiSourceRun

/-!
# What the orchestrator keeps

`Receiver.Inv` ties the records of the requests to the windows of the schedulers: a slot of a source
is taken for a chunk exactly when the chunk is in flight at that source.
-/

namespace Locast.Transfer

open Locast.Lib

/-! ### The invariant -/

/-- **The invariant of the loop.** -/
structure Receiver.Inv (plan : DownloadPlan) (s : Receiver) : Prop where
  ids : (s.sources.map SourceHandle.peerId).Nodup
  slots : ∀ h ∈ s.sources, ∀ i, i ∈ h.slots ↔ s.inFlightAt i h.peerId = true
  known : ∀ i record, s.inFlight.get i = some record → s.hasSource record.peerId = true
  planned : ∀ i record, s.inFlight.get i = some record → i < plan.chunks.length
  fresh : ∀ i record, s.inFlight.get i = some record → i ∉ s.haveSet
  window : s.inFlight.size ≤ windowSize

namespace Receiver

variable {plan : DownloadPlan} {s t : Receiver} {i index : ℕ} {peerId : String}
  {f : SourceHandle → SourceHandle}

lemma inFlightAt_iff : s.inFlightAt i peerId = true ↔
    ∃ record, s.inFlight.get i = some record ∧ record.peerId = peerId := by
  simp [inFlightAt, Option.any_eq_true]

lemma hasSource_iff : s.hasSource peerId = true ↔ ∃ h ∈ s.sources, h.peerId = peerId := by
  simp [hasSource]

/-- Only the sources, the records and the chunks it has matter. -/
lemma Inv.congr (hs : s.Inv plan) (hsources : t.sources = s.sources)
    (hflight : t.inFlight = s.inFlight) (hhave : t.haveSet = s.haveSet) : t.Inv plan := by
  obtain ⟨ids, slots, known, planned, fresh, window⟩ := hs
  refine ⟨hsources ▸ ids, ?_, ?_, ?_, ?_, hflight ▸ window⟩
  · simpa only [inFlightAt, hsources, hflight] using slots
  · simpa only [hasSource, hsources, hflight] using known
  · simpa only [hflight] using planned
  · simpa only [hflight, hhave] using fresh

lemma ids_map (hf : ∀ h ∈ s.sources, (f h).peerId = h.peerId) :
    (s.sources.map f).map SourceHandle.peerId = s.sources.map SourceHandle.peerId := by
  rw [List.map_map]
  exact List.map_congr_left hf

/-- A change of the sources that keeps their ids and windows. -/
lemma Inv.mapSources (hs : s.Inv plan) (hsources : t.sources = s.sources.map f)
    (hf : ∀ h ∈ s.sources, (f h).peerId = h.peerId ∧ (f h).slots = h.slots)
    (hflight : t.inFlight = s.inFlight) (hhave : t.haveSet = s.haveSet) : t.Inv plan := by
  have hids := ids_map fun h hh => (hf h hh).1
  refine ⟨?_, fun h hh i => ?_, fun i record hr => ?_, ?_, ?_, hflight ▸ hs.window⟩
  · rw [hsources, hids]
    exact hs.ids
  · rw [hsources] at hh
    obtain ⟨g, hg, rfl⟩ := List.mem_map.1 hh
    rw [(hf g hg).1, (hf g hg).2, inFlightAt, hflight]
    exact hs.slots g hg i
  · rw [hflight] at hr
    obtain ⟨h, hh, hid⟩ := hasSource_iff.1 (hs.known i record hr)
    refine hasSource_iff.2 ⟨f h, ?_, (hf h hh).1.trans hid⟩
    rw [hsources]
    exact List.mem_map_of_mem hh
  · simpa only [hflight] using hs.planned
  · simpa only [hflight, hhave] using hs.fresh

/-- A request leaves the window: its record and its slot go together. -/
lemma Inv.release (hs : s.Inv plan) (hat : s.inFlightAt index peerId = true)
    (hsources : t.sources = s.sources.map fun h => if h.peerId = peerId then f h else h)
    (hf : ∀ h, (f h).peerId = h.peerId ∧ (f h).slots = h.slots.erase index)
    (hflight : t.inFlight = s.inFlight.erase index) (hhave : t.haveSet = s.haveSet) :
    t.Inv plan := by
  obtain ⟨record, hget, rfl⟩ := inFlightAt_iff.1 hat
  have hids : ∀ h ∈ s.sources,
      (if h.peerId = record.peerId then f h else h).peerId = h.peerId := fun h _ => by
    split
    · exact (hf h).1
    · rfl
  have herase : ∀ i r, (s.inFlight.erase index).get i = some r →
      i ≠ index ∧ s.inFlight.get i = some r := fun i r hr => by
    rw [AList.get_erase] at hr
    split at hr
    · cases hr
    · exact ⟨‹_›, hr⟩
  refine ⟨?_, fun h hh i => ?_, fun i r hr => ?_, fun i r hr => ?_, fun i r hr => ?_, ?_⟩
  · rw [hsources, ids_map hids]
    exact hs.ids
  · rw [hsources] at hh
    obtain ⟨g, hg, rfl⟩ := List.mem_map.1 hh
    rw [hids g hg, inFlightAt, hflight, AList.get_erase]
    by_cases hp : g.peerId = record.peerId
    · rw [if_pos hp, (hf g).2, Finset.mem_erase, hs.slots g hg i, inFlightAt]
      by_cases hi : i = index
      · simp [hi]
      · simp [hi]
    · rw [if_neg hp, hs.slots g hg i, inFlightAt]
      by_cases hi : i = index
      · subst hi
        simp [hget, Ne.symm hp]
      · rw [if_neg hi]
  · rw [hflight] at hr
    obtain ⟨h, hh, hid⟩ := hasSource_iff.1 (hs.known i r (herase i r hr).2)
    refine hasSource_iff.2 ⟨_, hsources ▸ List.mem_map_of_mem hh, ?_⟩
    rw [hids h hh]
    exact hid
  · rw [hflight] at hr
    exact hs.planned i r (herase i r hr).2
  · rw [hflight] at hr
    rw [hhave]
    exact hs.fresh i r (herase i r hr).2
  · rw [hflight]
    exact (AList.size_erase_le _ _).trans hs.window

/-- A request enters the window. -/
lemma Inv.request (hs : s.Inv plan) (record : InflightRecord) (hnone : s.inFlight.get index = none)
    (hplan : index < plan.chunks.length) (hfresh : index ∉ s.haveSet)
    (hroom : s.inFlight.size < windowSize) (hknown : s.hasSource record.peerId = true) :
    ({ s.updateSource record.peerId (.acquireSlot index) with
      inFlight := s.inFlight.insert index record } : Receiver).Inv plan := by
  have hids : ∀ h ∈ s.sources,
      (if h.peerId = record.peerId then h.acquireSlot index else h).peerId = h.peerId :=
    fun h _ => by split <;> rfl
  have hinsert : ∀ i r, (s.inFlight.insert index record).get i = some r →
      (i = index ∧ r = record) ∨ s.inFlight.get i = some r := fun i r hr => by
    rw [AList.get_insert] at hr
    split at hr
    · exact .inl ⟨‹_›, (Option.some.inj hr).symm⟩
    · exact .inr hr
  have hsource : ∀ id, s.hasSource id = true →
      (s.updateSource record.peerId (.acquireSlot index)).hasSource id = true := fun id hid => by
    obtain ⟨h, hh, rfl⟩ := hasSource_iff.1 hid
    exact hasSource_iff.2 ⟨_, List.mem_map_of_mem hh, hids h hh⟩
  refine ⟨?_, fun h hh i => ?_, fun i r hr => ?_, fun i r hr => ?_, fun i r hr => ?_, ?_⟩
  · change ((s.sources.map _).map SourceHandle.peerId).Nodup
    rw [ids_map hids]
    exact hs.ids
  · obtain ⟨g, hg, rfl⟩ := List.mem_map.1 hh
    rw [hids g hg, inFlightAt]
    dsimp only
    rw [AList.get_insert]
    have hslot := hs.slots g hg i
    rw [inFlightAt] at hslot
    by_cases hi : i = index
    · subst hi
      rw [hnone] at hslot
      by_cases hp : g.peerId = record.peerId
      · simp [hp, SourceHandle.acquireSlot]
      · rw [if_neg hp, hslot]
        simp [Ne.symm hp]
    · rw [if_neg hi, ← hslot]
      by_cases hp : g.peerId = record.peerId
      · simp [hp, SourceHandle.acquireSlot, hi]
      · rw [if_neg hp]
  · rcases hinsert i r hr with ⟨-, rfl⟩ | hr
    · exact hsource _ hknown
    · exact hsource _ (hs.known i r hr)
  · rcases hinsert i r hr with ⟨rfl, -⟩ | hr
    · exact hplan
    · exact hs.planned i r hr
  · rcases hinsert i r hr with ⟨rfl, -⟩ | hr
    · exact hfresh
    · exact hs.fresh i r hr
  · have hle := AList.size_erase_le s.inFlight index
    dsimp only
    rw [AList.size_insert]
    omega

/-- The chunks of a window are in flight. -/
lemma Inv.slots_card_le (hs : s.Inv plan) {h : SourceHandle} (hh : h ∈ s.sources) :
    h.slots.card ≤ s.inFlight.size := by
  have hsub : h.slots ⊆ s.inFlight.keys.toFinset := fun i hi => by
    obtain ⟨record, hget, -⟩ := inFlightAt_iff.1 ((hs.slots h hh i).1 hi)
    exact List.mem_toFinset.2 (AList.mem_keys.1 (AList.mem_of_get hget))
  calc h.slots.card ≤ s.inFlight.keys.toFinset.card := Finset.card_le_card hsub
    _ ≤ s.inFlight.keys.length := List.toFinset_card_le _
    _ = s.inFlight.size := by simp [AList.size, AList.vals, AList.keys, List.keys]

/-! ### What keeps it -/

lemma Inv.recover (hs : s.Inv plan) (now : ℕ) :
    ({ s with sources := s.sources.map (.recover now) } : Receiver).Inv plan := by
  refine hs.mapSources rfl (fun h _ => ?_) rfl rfl
  unfold SourceHandle.recover
  split <;> exact ⟨rfl, rfl⟩

lemma Inv.update (hs : s.Inv plan) (hf : ∀ h, (f h).peerId = h.peerId ∧ (f h).slots = h.slots) :
    (s.updateSource peerId f).Inv plan := by
  refine hs.mapSources rfl (fun h _ => ?_) rfl rfl
  split
  · exact hf h
  · exact ⟨rfl, rfl⟩

lemma touch_fields (index now : ℕ) (s : Receiver) :
    (s.touch index now).sources = s.sources ∧ (s.touch index now).haveSet = s.haveSet := by
  unfold touch
  split <;> exact ⟨rfl, rfl⟩

/-- What a record becomes when it is touched. -/
lemma get_touch (now : ℕ) {r : InflightRecord} (hr : (s.touch index now).inFlight.get i = some r) :
    ∃ r', s.inFlight.get i = some r' ∧ r'.peerId = r.peerId := by
  unfold touch at hr
  split at hr
  · exact ⟨r, hr, rfl⟩
  · rename_i record hget
    dsimp only at hr
    rw [AList.get_insert] at hr
    split at hr
    · rename_i hi
      obtain rfl := Option.some.inj hr
      exact ⟨record, hi ▸ hget, rfl⟩
    · exact ⟨r, hr, rfl⟩

lemma inFlightAt_touch (now : ℕ) :
    (s.touch index now).inFlightAt i peerId = s.inFlightAt i peerId := by
  unfold touch
  split
  · rfl
  · rename_i record hget
    rw [inFlightAt, inFlightAt, AList.get_insert]
    split
    · rename_i hi
      rw [hi, hget]
      rfl
    · rfl

lemma Inv.touch (hs : s.Inv plan) (index now : ℕ) : (s.touch index now).Inv plan := by
  obtain ⟨hsources, hhave⟩ := touch_fields index now s
  refine ⟨hsources ▸ hs.ids, fun h hh i => ?_, fun i r hr => ?_, fun i r hr => ?_, fun i r hr => ?_,
    ?_⟩
  · rw [inFlightAt_touch]
    exact hs.slots h (hsources ▸ hh) i
  · obtain ⟨r', hr', hid⟩ := get_touch now hr
    rw [hasSource, hsources, ← hid]
    exact hs.known i r' hr'
  · obtain ⟨r', hr', -⟩ := get_touch now hr
    exact hs.planned i r' hr'
  · obtain ⟨r', hr', -⟩ := get_touch now hr
    rw [hhave]
    exact hs.fresh i r' hr'
  · unfold Receiver.touch
    split
    · exact hs.window
    · rename_i record hget
      dsimp only
      rw [AList.size_insert, ← AList.size_of_get hget]
      exact hs.window

/-- Everything `apply_nak` does. -/
lemma Inv.applyNak (hs : s.Inv plan) (index : ℕ) (peerId : String) :
    (∃ e, (s.applyNak index peerId).1 = .error e ∧
      maxChunkRetries ≤ (s.applyNak index peerId).2.retriesOf index) ∨
    ((s.applyNak index peerId).1 = .ok () ∧ (s.applyNak index peerId).2.Inv plan ∧
      (s.applyNak index peerId).2.haveSet = s.haveSet ∧
      ((s.applyNak index peerId).2.inFlight = s.inFlight ∨
        (s.applyNak index peerId).2.inFlight = s.inFlight.erase index)) := by
  unfold Receiver.applyNak
  dsimp only
  split
  · exact .inr ⟨rfl, hs.congr rfl rfl rfl, rfl, .inl rfl⟩
  · rename_i hat
    split
    · rename_i hspent
      refine .inl ⟨_, rfl, ?_⟩
      simpa [retriesOf] using hspent
    · split
      · refine .inr ⟨rfl, ?_, rfl, .inr rfl⟩
        have hat' : s.inFlightAt index peerId = true := by simpa [inFlightAt] using hat
        exact hs.release hat' rfl (fun _ => ⟨rfl, rfl⟩) rfl rfl
      · exact .inr ⟨rfl, hs.congr rfl rfl rfl, rfl, .inl rfl⟩

lemma Inv.tick (hs : s.Inv plan) (index : ℕ) (peerId : String) :
    (∃ e, (s.tick index peerId).1 = .error e ∧
      maxChunkRetries ≤ (s.tick index peerId).2.retriesOf index) ∨
    ((s.tick index peerId).1 = .ok () ∧ (s.tick index peerId).2.Inv plan ∧
      (s.tick index peerId).2.haveSet = s.haveSet) := by
  unfold Receiver.tick
  dsimp only
  split
  · have hreset : ({ s with
        consecutiveStuck := s.consecutiveStuck.erase (index, peerId) } : Receiver).Inv plan :=
      hs.congr rfl rfl rfl
    rcases hreset.applyNak index peerId with h | ⟨hok, hinv, hhave, -⟩
    · exact .inl h
    · exact .inr ⟨hok, hinv, hhave⟩
  · exact .inr ⟨rfl, hs.congr rfl rfl rfl, rfl⟩

lemma Inv.requeue (hs : s.Inv plan)
    (hat : ∀ record, s.inFlight.get index = some record → record.peerId = peerId) :
    (s.requeue index peerId).Inv plan ∧ (s.requeue index peerId).haveSet = s.haveSet := by
  unfold Receiver.requeue
  split
  · rename_i hsome
    obtain ⟨record, hget⟩ := Option.isSome_iff_exists.1 hsome
    have hflight : s.inFlightAt index peerId = true :=
      inFlightAt_iff.2 ⟨record, hget, hat record hget⟩
    exact ⟨hs.release hflight rfl (fun _ => ⟨rfl, rfl⟩) rfl rfl, rfl⟩
  · exact ⟨hs, rfl⟩

lemma Inv.answered (hs : s.Inv plan) (hat : s.inFlightAt index peerId = true) :
    (s.answered index peerId).Inv plan :=
  hs.release hat rfl (fun _ => ⟨rfl, rfl⟩) rfl rfl

/-- A chunk that is no longer in flight enters the verified set. -/
lemma Inv.verified (hs : s.Inv plan) (hnone : s.inFlight.get index = none) :
    ({ s with haveSet := insert index s.haveSet } : Receiver).Inv plan := by
  refine ⟨hs.ids, hs.slots, hs.known, hs.planned, fun i record hr hi => ?_, hs.window⟩
  rcases Finset.mem_insert.1 hi with rfl | hi
  · rw [hnone] at hr
    cases hr
  · exact hs.fresh i record hr hi

/-! ### Pending chunks -/

/-- The chunk is to be asked for. -/
structure Pending (plan : DownloadPlan) (s : Receiver) (i : ℕ) : Prop where
  planned : i < plan.chunks.length
  idle : s.inFlight.get i = none
  missing : i ∉ s.haveSet

lemma index_map (hl : plan.Layout) :
    plan.chunks.map PlannedChunk.index = List.range plan.chunks.length := by
  refine List.ext_getElem? fun i => ?_
  rw [List.getElem?_map]
  by_cases hi : i < plan.chunks.length
  · have hget := List.getElem?_eq_getElem hi
    rw [hget, Option.map_some, hl.index i _ hget]
    simp [hi]
  · rw [List.getElem?_eq_none (Nat.not_lt.1 hi), List.getElem?_eq_none (by simpa using hi)]
    rfl

lemma mem_pending (hl : plan.Layout) : i ∈ s.pending plan ↔ s.Pending plan i := by
  unfold pending
  rw [index_map hl]
  simp only [List.mem_filter, List.mem_range, Option.isNone_iff_eq_none, decide_eq_true_eq]
  exact ⟨fun ⟨⟨h, h'⟩, h''⟩ => ⟨h, h', h''⟩, fun h => ⟨⟨h.planned, h.idle⟩, h.missing⟩⟩

lemma nodup_pending (hl : plan.Layout) : (s.pending plan).Nodup := by
  unfold pending
  rw [index_map hl]
  exact (List.nodup_range.filter _).filter _

/-- **Every planned chunk is verified, in flight or pending**, and one of these only. -/
theorem Inv.partition (hs : s.Inv plan) (hl : plan.Layout) (hi : i < plan.chunks.length) :
    (i ∈ s.haveSet ∧ s.inFlight.get i = none ∧ i ∉ s.pending plan) ∨
    (i ∉ s.haveSet ∧ (∃! h, h ∈ s.sources ∧ s.inFlightAt i h.peerId = true) ∧
      i ∉ s.pending plan) ∨
    (i ∉ s.haveSet ∧ s.inFlight.get i = none ∧ i ∈ s.pending plan) := by
  rw [mem_pending hl]
  by_cases hhave : i ∈ s.haveSet
  · refine .inl ⟨hhave, ?_, fun h => h.missing hhave⟩
    by_contra hsome
    obtain ⟨record, hget⟩ := Option.ne_none_iff_exists'.1 hsome
    exact hs.fresh i record hget hhave
  · cases hget : s.inFlight.get i with
    | none => exact .inr (.inr ⟨hhave, rfl, ⟨hi, hget, hhave⟩⟩)
    | some record =>
      refine .inr (.inl ⟨hhave, ?_, fun h => ?_⟩)
      · obtain ⟨h, hh, hid⟩ := hasSource_iff.1 (hs.known i record hget)
        refine ⟨h, ⟨hh, inFlightAt_iff.2 ⟨record, hget, hid.symm⟩⟩, fun g ⟨hg, hat⟩ => ?_⟩
        obtain ⟨record', hget', hid'⟩ := inFlightAt_iff.1 hat
        obtain rfl : record = record' := Option.some.inj (hget.symm.trans hget')
        exact List.inj_on_of_nodup_map hs.ids hg hh (hid'.symm.trans hid.symm)
      · rw [h.idle] at hget
        cases hget

end Receiver

/-! ### Choosing -/

namespace SourceHandle

variable {tried : Finset String} {now : ℕ}

lemma consider_cases {best : Option SourceHandle} {h g : SourceHandle}
    (hg : consider tried now best h = some g) : best = some g ∨ g = h := by
  unfold consider at hg
  split at hg
  · exact .inl hg
  split at hg
  · exact .inl hg
  cases best with
  | none => exact .inr (Option.some.inj hg).symm
  | some current =>
    obtain rfl := Option.some.inj hg
    unfold better
    repeat' split
    all_goals first
      | exact .inl rfl
      | exact .inr rfl

lemma mem_of_pick {handles : List SourceHandle} {h : SourceHandle}
    (hp : pick tried now handles = some h) : h ∈ handles := by
  have hfold : ∀ (l : List SourceHandle) (best : Option SourceHandle) (g : SourceHandle),
      l.foldl (consider tried now) best = some g → best = some g ∨ g ∈ l := by
    intro l
    induction l with
    | nil => exact fun best g hg => .inl hg
    | cons h l ih =>
      intro best g hg
      rcases ih _ g hg with hg | hg
      · rcases consider_cases hg with hg | rfl
        · exact .inl hg
        · exact .inr List.mem_cons_self
      · exact .inr (List.mem_cons_of_mem _ hg)
  rcases hfold handles none h hp with h | h
  · cases h
  · exact h

end SourceHandle

end Locast.Transfer
