import Locast.Client.PeerTable

/-!
# Whose event it is

Events carry the remote's id only, so a late event of a replaced connection works on the entry of
its replacement.  As long as no section of an event finds another connection's entry, events leave
the other connections alone; and the table always holds, for each remote, the connection last added
if it was not closed.
-/

namespace Locast.Client

open Locast.Lib Locast.Protocol

/-! ### The table -/

/-- The table holds exactly the connections last added for their remote and not closed since. -/
def PeerTable.Latest (t : PeerTable) : Prop :=
  ∀ u c, (∃ e, t.peers.get u = some e ∧ e.conn = c) ↔ t.added.get u = some c ∧ c ∉ t.closed

/-- The table and the numbers of the connections. -/
structure PeerTable.Booked (t : PeerTable) : Prop where
  latest : t.Latest
  added_lt : ∀ u c, t.added.get u = some c → c < t.nextConn
  closed_lt : ∀ c ∈ t.closed, c < t.nextConn
  injective : ∀ u u' c, t.added.get u = some c → t.added.get u' = some c → u = u'

namespace PeerTable.Booked

variable {t : PeerTable}

lemma empty : PeerTable.empty.Booked := by
  refine ⟨fun u c => ?_, fun u c h => ?_, fun c h => ?_, fun u u' c h => ?_⟩
  · simp [PeerTable.empty]
  · simp [PeerTable.empty] at h
  · simp [PeerTable.empty] at h
  · simp [PeerTable.empty] at h

lemma remove (h : t.Booked) (u : Uuid) : (t.remove u).Booked := by
  unfold PeerTable.remove
  rcases hu : t.peers.get u with _ | e
  · exact h
  obtain ⟨hadded, hopen⟩ := (h.latest u e.conn).mp ⟨e, hu, rfl⟩
  refine ⟨fun u' c => ?_, h.added_lt, ?_, h.injective⟩
  · simp only [AList.get_erase, List.mem_cons, not_or]
    by_cases huu : u' = u
    · subst huu
      rw [if_pos rfl]
      constructor
      · rintro ⟨e', he', -⟩
        cases he'
      · rintro ⟨hc, hne, -⟩
        rw [hadded] at hc
        exact absurd (Option.some.inj hc).symm hne
    · rw [if_neg huu, h.latest]
      constructor
      · rintro ⟨hc, hnot⟩
        refine ⟨hc, ?_, hnot⟩
        rintro rfl
        exact huu (h.injective u' u _ hc hadded)
      · rintro ⟨hc, -, hnot⟩
        exact ⟨hc, hnot⟩
  · intro c hc
    rcases List.mem_cons.mp hc with rfl | hc
    · exact h.added_lt u _ hadded
    · exact h.closed_lt c hc

lemma removes (h : t.Booked) (l : List Uuid) :
    (l.foldl (fun t u => t.remove u) t).Booked := by
  induction l generalizing t with
  | nil => exact h
  | cons u l ih => exact ih (h.remove u)

lemma modify (h : t.Booked) (u : Uuid) (f : PeerEntry → PeerEntry) (hf : ∀ e, (f e).conn = e.conn) :
    (t.modify u f).Booked := by
  unfold PeerTable.modify
  rcases hu : t.peers.get u with _ | e
  · exact h
  refine ⟨fun u' c => ?_, h.added_lt, h.closed_lt, h.injective⟩
  rw [← h.latest u' c, AList.get_insert]
  by_cases huu : u' = u
  · subst huu
    simp [hu, hf]
  · rw [if_neg huu]

lemma insert (h : t.Booked) (u : Uuid) (initiator : Bool) (phase : PeerPhase) (dc : Option ℕ) :
    (t.insert u initiator phase dc).Booked := by
  refine ⟨fun u' c => ?_, fun u' c hc => ?_, fun c hc => ?_, fun u₁ u₂ c h₁ h₂ => ?_⟩
  · simp only [PeerTable.insert, AList.get_insert]
    by_cases huu : u' = u
    · subst huu
      rw [if_pos rfl, if_pos rfl]
      constructor
      · rintro ⟨_, he, rfl⟩
        cases he
        exact ⟨rfl, fun hmem => absurd (h.closed_lt _ hmem) (lt_irrefl _)⟩
      · rintro ⟨hc, -⟩
        exact ⟨_, rfl, Option.some.inj hc⟩
    · rw [if_neg huu, if_neg huu]
      exact h.latest u' c
  · simp only [PeerTable.insert, AList.get_insert] at hc ⊢
    split at hc
    · cases hc
      exact Nat.lt_succ_self _
    · exact Nat.lt_succ_of_lt (h.added_lt u' c hc)
  · exact Nat.lt_succ_of_lt (h.closed_lt c hc)
  · simp only [PeerTable.insert, AList.get_insert] at h₁ h₂
    -- the new number is above all that were given before
    have hnew : ∀ {u'}, t.added.get u' ≠ some t.nextConn := fun hc =>
      absurd (h.added_lt _ _ hc) (lt_irrefl _)
    split at h₁ <;> split at h₂
    · simp [*]
    · cases h₁
      exact absurd h₂ hnew
    · cases h₂
      exact absurd h₁ hnew
    · exact h.injective u₁ u₂ c h₁ h₂

/-- Every section keeps the books. -/
lemma handle (h : t.Booked) {a : PeerAct} {inp : PeerInput} {out : a.Result × PeerTable}
    (ho : a.handle inp t = some out) : out.2.Booked := by
  cases a <;> cases ho
  case retain roomId participants me =>
    have hkept : (PeerTable.retain roomId participants me t).2 =
        (t.peers.keys.filter fun uid => decide (uid ∉ participants)).foldl
          (fun t uid => t.remove uid) { t with roomId := some roomId } := by
      unfold PeerTable.retain
      dsimp only
      split <;> rfl
    rw [hkept]
    have hroom : ({ t with roomId := some roomId } : PeerTable).Booked :=
      ⟨h.latest, h.added_lt, h.closed_lt, h.injective⟩
    exact hroom.removes _
  case drain =>
    have hall := h.removes t.peers.keys
    exact ⟨hall.latest, hall.added_lt, hall.closed_lt, hall.injective⟩
  case insert => exact h.insert _ _ _ _
  case remove => exact h.remove _
  case setConnected => exact h.modify _ _ fun _ => rfl
  case setFailed => exact h.modify _ _ fun _ => rfl
  case setRestarted => exact h.modify _ _ fun _ => rfl
  case adopt => exact h.modify _ _ fun _ => rfl
  case applySignal remote kind =>
    refine h.modify _ _ fun e => ?_
    cases kind <;> simp only [PeerEntry.signalled] <;> split <;> rfl
  all_goals exact h

end PeerTable.Booked

/-! ### Events -/

/-- The connection whose pump hands on the event, and its remote. -/
def PeerOp.source : PeerOp → Option (ℕ × Uuid)
  | event conn remote _ => some (conn, remote)
  | _ => none

/-- The entry that a section of an event works on. -/
def PeerAct.entry : PeerAct → Option Uuid
  | setConnected remote | setFailed remote | setRestarted remote | remove remote | adopt remote _ =>
    some remote
  | _ => none

/-- A section that an event of a connection to `u` runs. -/
def PeerAct.OfEvent (u : Uuid) (a : PeerAct) : Prop :=
  a.entry = some u ∨ a = .restartIce ∨ a = .readRoom

/-- Events only run sections on the entry of their remote. -/
lemma event_footprint (c : ℕ) (u : Uuid) (ev : PeerEvent) :
    (peerSystem.program (.event c u ev)).Sat (.only (fun _ _ => True) (PeerAct.OfEvent u))
      (fun _ _ => True) () := by
  have hentry : ∀ a : PeerAct, a.entry = some u → a.OfEvent u := fun a ha => .inl ha
  rcases ev with _ | ⟨dc, files⟩ | state
  · exact ⟨.inr (.inr rfl), fun _ _ => trivial⟩
  · cases files
    · exact trivial
    · exact ⟨hentry _ rfl, fun _ _ => trivial⟩
  · cases state
    · exact ⟨hentry _ rfl, fun _ _ => trivial⟩
    · refine ⟨hentry _ rfl, ?_⟩
      rintro (_ | restarts) -
      · exact trivial
      · change Prog.Sat _ _ (if restarts < iceRestartLimit then _ else _) _
        split
        · refine ⟨.inr (.inl rfl), ?_⟩
          rintro (_ | _) -
          · exact ⟨hentry _ rfl, fun _ _ => trivial⟩
          · exact ⟨hentry _ rfl, fun _ _ => trivial⟩
        · exact ⟨hentry _ rfl, fun _ _ => trivial⟩
    · exact ⟨hentry _ rfl, fun _ _ => trivial⟩
    · exact trivial

/-- The section leaves the entries of the other remotes alone, and closes at most the connection in
its own. -/
lemma PeerAct.frame {a : PeerAct} {u : Uuid} (ha : a.OfEvent u) {t : PeerTable} {inp : PeerInput}
    {out : a.Result × PeerTable} (ho : a.handle inp t = some out) :
    (∀ u' ≠ u, out.2.peers.get u' = t.peers.get u') ∧
      (∀ c ∈ out.2.closed, c ∈ t.closed ∨ ∃ e, t.peers.get u = some e ∧ e.conn = c) := by
  have hmodify : ∀ f : PeerEntry → PeerEntry,
      (∀ u' ≠ u, (t.modify u f).peers.get u' = t.peers.get u') ∧
        ∀ c ∈ (t.modify u f).closed, c ∈ t.closed ∨ ∃ e, t.peers.get u = some e ∧ e.conn = c := by
    intro f
    unfold PeerTable.modify
    rcases t.peers.get u with _ | e
    · exact ⟨fun _ _ => rfl, fun _ hc => .inl hc⟩
    · refine ⟨fun u' hne => ?_, fun _ hc => .inl hc⟩
      simp [AList.get_insert, hne]
  rcases ha with ha | rfl | rfl
  · cases a <;> cases ho <;> cases ha
    case inl.remove.refl.refl =>
      dsimp only
      unfold PeerTable.remove
      rcases hu : t.peers.get u with _ | e
      · exact ⟨fun _ _ => rfl, fun _ hc => .inl hc⟩
      · refine ⟨fun u' hne => ?_, fun c hc => ?_⟩
        · simp [AList.get_erase, hne]
        · rcases List.mem_cons.mp hc with rfl | hc
          · exact .inr ⟨e, rfl, rfl⟩
          · exact .inl hc
    all_goals exact hmodify _
  all_goals
    cases ho
    exact ⟨fun _ _ => rfl, fun _ hc => .inl hc⟩

/-- The sections that work on no entry leave the table as it is. -/
lemma PeerAct.idle {a : PeerAct} (ha : a = .restartIce ∨ a = .readRoom) {t : PeerTable}
    {inp : PeerInput} {out : a.Result × PeerTable} (ho : a.handle inp t = some out) :
    out.2 = t := by
  rcases ha with rfl | rfl
  · cases ho
    rfl
  · cases ho
    rfl

/-- One section as it happened. -/
abbrev PeerDid : Type := Did PeerAct.Result PeerOp PeerTable PeerInput

/-- A section of an event finds no entry of another connection. -/
def Current (d : PeerDid) : Prop :=
  ∀ c u, d.op.source = some (c, u) → d.effect.entry = some u →
    ∀ e, d.before.peers.get u = some e → e.conn = c

/-- A section of an event of a connection leaves the entries of the other connections as they are,
and closes none of them. -/
def KeepsOthers (d : PeerDid) : Prop :=
  ∀ c u, d.op.source = some (c, u) → ∀ u' e, d.before.peers.get u' = some e → e.conn ≠ c →
    d.after.peers.get u' = some e ∧ (e.conn ∈ d.after.closed → e.conn ∈ d.before.closed)

lemma Current.keepsOthers {d : PeerDid} (hd : peerSystem.Handled d)
    (hop : ∀ c u, d.op.source = some (c, u) → d.effect.OfEvent u) (h : Current d) :
    KeepsOthers d := by
  intro c u hsrc u' e he hne
  have hof := hop c u hsrc
  obtain ⟨hget, hclosed⟩ := PeerAct.frame hof hd
  have huu : d.effect.entry = some u → u' ≠ u := by
    rintro hentry rfl
    exact hne (h c u' hsrc hentry e he)
  rcases hof with hentry | hidle
  · refine ⟨(hget u' (huu hentry)).trans he, fun hmem => ?_⟩
    rcases hclosed _ hmem with hmem | ⟨e', he', heq⟩
    · exact hmem
    · exact absurd (heq.symm.trans (h c u hsrc hentry e' he')) hne
  · have hsame : d.after = d.before := PeerAct.idle hidle hd
    rw [hsame]
    exact ⟨he, id⟩

/-- **The peer table.** In a run in which no section of an event finds the entry of another
connection, an event of a connection changes, closes and removes no other connection's entry; and
after every section the table holds, for each remote, the connection last added if it was not closed
since. -/
theorem events_keep_other_connections {h : List PeerDid}
    {p : Pool PeerAct.Result PeerOp Unit PeerTable}
    (r : peerSystem.Run (fun _ d => Current d) .empty h p) :
    ∀ d ∈ h, KeepsOthers d ∧ d.after.Latest := by
  have hprog : ∀ op, (peerSystem.program op).Sat
      (.only (fun _ _ => True) fun a => ∀ c u, op.source = some (c, u) → a.OfEvent u)
      (fun _ _ => True) () := by
    intro op
    rcases hsrc : op.source with _ | ⟨c, u⟩
    · refine Prog.sat_of_allows (fun _ _ c u hcu => ?_) _ _
      cases hcu
    · cases op <;> cases hsrc
      rename_i ev
      simpa [Option.some_inj] using event_footprint c u ev
  have hfoot := (r.footprint hprog fun _ _ => trivial).1
  have hbooked := r.history_invariant (fun h t => t.Booked ∧ ∀ d ∈ h, d.after.Booked)
    ⟨.empty, fun d hd => absurd hd List.not_mem_nil⟩ ?_
  · intro d hd
    obtain ⟨hh, h', p', r', hb, hg⟩ := r.before d hd
    exact ⟨hg.keepsOthers hh (hfoot d hd), (hbooked.2 d hd).latest⟩
  · rintro h p d p' - - hb ha hd ⟨ht, hall⟩
    have hafter : d.after.Booked := ht.handle hd
    refine ⟨hafter, fun d' hd' => ?_⟩
    rcases List.mem_append.mp hd' with hd' | hd'
    · exact hall d' hd'
    · rw [List.mem_singleton.mp hd']
      exact hafter

/-! ### A peer that leaves and rejoins -/

namespace Rejoin

/-- The local user is 5, and calls succeed. -/
def input : PeerInput := ⟨some 5, true, 40⟩

/-- The peer 7 joins, leaves and joins again. -/
def rejoining : List (Move PeerOp PeerInput) :=
  [ .spawn (.roomState 1 [5, 7]), .advance 0 input, .advance 0 input, .advance 0 input,
    .advance 0 input, .advance 0 input,
    .spawn (.roomState 1 [5]), .advance 1 input, .advance 1 input,
    .spawn (.roomState 1 [5, 7]), .advance 2 input, .advance 2 input, .advance 2 input,
    .advance 2 input, .advance 2 input ]

/-- The event found the entry of the second connection, and removed it. -/
def takesOther (d : PeerDid) : Bool :=
  decide (d.op.source = some (0, 7)) && (d.before.peers.get 7).any (fun e => decide (e.conn = 1)) &&
    (d.after.peers.get 7).isNone

lemma not_keepsOthers {d : PeerDid} (h : takesOther d = true) : ¬KeepsOthers d := by
  simp only [takesOther, Bool.and_eq_true, decide_eq_true_eq, Option.isNone_iff_eq_none,
    Option.any_eq_true] at h
  obtain ⟨⟨hsrc, e, he, hc⟩, hgone⟩ := h
  intro hkeeps
  have hkept := (hkeeps 0 7 hsrc 7 e he (by omega)).1
  rw [hgone] at hkept
  cases hkept

/-- The event of the first connection that says it is closed removes the second one. -/
theorem not_events_keep_other_connections :
    ∃ (h : List PeerDid) (p : Pool PeerAct.Result PeerOp Unit PeerTable),
      peerSystem.Run (fun _ _ => True) .empty h p ∧ ∃ d ∈ h, ¬KeepsOthers d := by
  have hrun : ∃ (h : List PeerDid) (p : Pool PeerAct.Result PeerOp Unit PeerTable),
      peerSystem.Run (fun _ _ => True) .empty h p ∧ h.any takesOther = true :=
    System.exists_run_of_play
      (rejoining ++ [.spawn (.event 0 7 (.stateChange .closed)), .advance 3 input])
      (fun _ _ => true) (fun out => out.1.any takesOther) (fun _ _ _ => trivial)
      (by decide)
  obtain ⟨h, p, r, hany⟩ := hrun
  obtain ⟨d, hd, htakes⟩ := List.any_eq_true.mp hany
  exact ⟨h, p, r, d, hd, not_keepsOthers htakes⟩

/-- The event works on the entry of its own connection, or on none. -/
def current (d : PeerDid) : Bool :=
  d.op.source.all fun cu => (d.before.peers.get cu.2).all fun e => decide (e.conn = cu.1)

lemma current_of_check {d : PeerDid} (h : current d = true) : Current d := by
  intro c u hsrc _ e he
  rw [current, hsrc, Option.all_some, he, Option.all_some] at h
  exact of_decide_eq_true h

/-- The event of the second connection that says it is closed removes its own entry only. -/
theorem events_keep_other_connections_rejoined :
    ∃ h : List PeerDid, h.length = 13 ∧ ∀ d ∈ h, KeepsOthers d ∧ d.after.Latest := by
  have hrun : ∃ (h : List PeerDid) (p : Pool PeerAct.Result PeerOp Unit PeerTable),
      peerSystem.Run (fun _ d => Current d) .empty h p ∧ decide (h.length = 13) = true :=
    System.exists_run_of_play
      (rejoining ++ [.spawn (.event 1 7 (.stateChange .closed)), .advance 3 input])
      (fun _ d => current d) (fun out => decide (out.1.length = 13))
      (fun _ _ h => current_of_check h) (by decide)
  obtain ⟨h, p, r, hlen⟩ := hrun
  exact ⟨h, of_decide_eq_true hlen, events_keep_other_connections r⟩

end Rejoin

end Locast.Client
