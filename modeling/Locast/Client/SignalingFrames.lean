import Locast.Client.Signaling
import Mathlib.Data.List.Nodup

/-!
# Frames carry the connection's own bearer

What a section under the lock captured belongs to the connection whose queue it saw.  As long as
every frame is pushed before that queue is emptied for a later connection, a queue only ever holds
frames of its own connection.
-/

namespace Locast.Client

open Locast.Lib Locast.Lib.JsonText Locast.Protocol

variable {α : Type} {s s' : LinkState α}

/-! ### What is claimed of a run -/

structure FramesSound (s : LinkState α) : Prop where
  /-- A frame carries the one bearer that its connection was issued. -/
  ownBearer : ∀ w ∈ s.written, ∃ t, (∀ t', (w.connection, t') ∈ s.issued ↔ t' = t) ∧
    carried w.frame.env = some (bearerArray t)
  /-- Frames are written in the order of the pushes, each at most once. -/
  inOrder : (s.written.map (·.frame.number)).Pairwise (· < ·)
  pushed : ∀ w ∈ s.written, s.pushed[w.frame.number]? = some w.frame
  /-- The frames of a paced call that returned well are those it was given, all queued for one
  connection, and written to no other. -/
  together : ∀ i c, s.calls[i]? = some c → c.session.isSome = true → c.result = some (.ok ()) →
    ∃ n t, (n, t) ∈ s.issued ∧
      (s.pushed.filter (·.call = i)).map (·.env) = c.asked.map (withBearer t) ∧
      (∀ f ∈ s.pushed, f.call = i → f.queuedFor = n) ∧
      ∀ w ∈ s.written, w.frame.call = i → w.connection = n

/-- A frame is pushed before the queue its call saw is emptied for a later connection. -/
def KeepsQueue (s : LinkState α) : LinkInput α → Prop
  | .push i => ∀ c, s.calls[i]? = some c → ∀ captured, c.captured = some captured →
      captured.connection = s.connection
  | _ => True

/-! ### The bearer in a payload -/

lemma carried_withBearer (t : Token) (env : OutEnvelope α) :
    carried (withBearer t env) = some (bearerArray t) := by
  simp [carried, withBearer, asObject, insertEntry]

lemma bearerArray_inj {t t' : Token} (h : bearerArray t = bearerArray t') : t = t' := by
  have hlist : t.toList.map (fun b => Json.number b.toNat) =
      t'.toList.map fun b => Json.number b.toNat := by
    simpa only [bearerArray, Json.array.injEq] using h
  have hinj : Function.Injective fun b : UInt8 => Json.number b.toNat := fun a b hab => by
    simpa only [Json.number.injEq, Nat.cast_inj, UInt8.toNat_inj] using hab
  exact Vector.toList_inj.1 (List.map_injective_iff.2 hinj hlist)

/-! ### The loop -/

/-- A connection is up, or its end is still to be reported. -/
def LoopAt.up : LoopAt → Bool
  | .ended | .authenticated | .idle => true
  | _ => false

/-- A connection that no bearer was issued on yet. -/
def LoopAt.opening : LoopAt → Bool
  | .connecting | .hello | .handshaking _ => true
  | _ => false

/-- What the loop keeps. -/
structure LoopInv (s : LinkState α) : Prop where
  up : s.phase = .authenticated ↔ s.loop.up = true
  bearer : s.loop.up = true → ∃ b, s.bearer = some b ∧ (s.connection, b.token) ∈ s.issued
  bearerIssued : ∀ b, s.bearer = some b → ∃ n, (n, b.token) ∈ s.issued
  past : ∀ p ∈ s.issued, p.1 ≤ s.connection
  opening : s.loop.opening = true → ∀ p ∈ s.issued, p.1 < s.connection
  tokens : (s.issued.map (·.2)).Nodup
  connections : (s.issued.map (·.1)).Nodup

lemma LoopInv.new : LoopInv (.new : LinkState α) where
  up := by simp [LinkState.new, LoopAt.up]
  bearer := by rintro ⟨⟩
  bearerIssued := by rintro _ ⟨⟩
  past := by rintro _ ⟨⟩
  opening := by rintro ⟨⟩
  tokens := .nil
  connections := .nil

/-- One bearer for each connection. -/
lemma LoopInv.bearer_unique (h : LoopInv s) {n : ℕ} {t t' : Token} (ht : (n, t) ∈ s.issued)
    (ht' : (n, t') ∈ s.issued) : t' = t :=
  (Prod.mk.inj (List.inj_on_of_nodup_map h.connections ht' ht rfl)).2

/-- One connection for each bearer. -/
lemma LoopInv.connection_unique (h : LoopInv s) {n n' : ℕ} {t : Token} (ht : (n, t) ∈ s.issued)
    (ht' : (n', t) ∈ s.issued) : n' = n :=
  (Prod.mk.inj (List.inj_on_of_nodup_map h.tokens ht' ht rfl)).1

/-- What the sends do is nothing to the loop. -/
lemma LoopInv.sends (h : LoopInv s) {queue pushed : List (QueuedFrame α)}
    {calls : List (SendCall α)} {written : List (WrittenFrame α)} :
    LoopInv { s with queue := queue, pushed := pushed, calls := calls, written := written } :=
  ⟨h.up, h.bearer, h.bearerIssued, h.past, h.opening, h.tokens, h.connections⟩

/-- The loop moves on between two connections, or with no connection. -/
lemma LoopInv.down (h : LoopInv s) {p : ConnPhase} {l : LoopAt} {tx : Option ℕ} {receiving : Bool}
    {resumeToken : Option (List UInt8)} {bearer : Option BearerRecord}
    (hbearer : bearer = s.bearer ∨ bearer = none) (hp : p ≠ .authenticated) (hl : l.up = false)
    (hopening : l.opening = true → s.loop.opening = true) :
    LoopInv { s with
      phase := p, loop := l, bearer := bearer, resumeToken := resumeToken, outboundTx := tx,
      receiving := receiving } where
  up := by simp [hp, hl]
  bearer hup := by
    rw [hl] at hup
    cases hup
  bearerIssued b hb := by
    rcases hbearer with rfl | rfl
    · exact h.bearerIssued b hb
    · cases hb
  past := h.past
  opening hop := h.opening (hopening hop)
  tokens := h.tokens
  connections := h.connections

/-- The loop moves on while the connection is up. -/
lemma LoopInv.stay (h : LoopInv s) {l : LoopAt} (hup : s.loop.up = true) (hl : l.up = true)
    (hopening : l.opening = false) : LoopInv { s with loop := l } where
  up := by simp [hl, h.up.2 hup]
  bearer _ := h.bearer hup
  bearerIssued := h.bearerIssued
  past := h.past
  opening hop := by
    rw [hopening] at hop
    cases hop
  tokens := h.tokens
  connections := h.connections

/-- A new connection is opened. -/
lemma LoopInv.opened (h : LoopInv s) (hp : s.loop.up = false) :
    LoopInv { s with loop := .connecting, connection := s.connection + 1 } where
  up := by
    rw [show s.phase = .authenticated ↔ False from h.up.trans (by simp [hp])]
    simp [LoopAt.up]
  bearer := by rintro ⟨⟩
  bearerIssued := h.bearerIssued
  past p hp := (h.past p hp).trans (Nat.le_succ _)
  opening _ p hp := Nat.lt_succ_of_le (h.past p hp)
  tokens := h.tokens
  connections := h.connections

/-- `AUTH_OK`. -/
lemma LoopInv.authOk (h : LoopInv s) (hopening : s.loop.opening = true) {b : BearerRecord}
    (hfresh : b.token ∉ s.issued.map (·.2)) {resumeToken : Option (List UInt8)} :
    LoopInv { s with
      bearer := some b, resumeToken := resumeToken, phase := .authenticated, loop := .authenticated,
      issued := (s.connection, b.token) :: s.issued } where
  up := by simp [LoopAt.up]
  bearer _ := ⟨b, rfl, List.mem_cons_self⟩
  bearerIssued := by
    rintro _ ⟨⟩
    exact ⟨_, List.mem_cons_self⟩
  past p hp := by
    rcases List.mem_cons.1 hp with rfl | hp
    · exact le_rfl
    · exact h.past p hp
  opening := by rintro ⟨⟩
  tokens := List.nodup_cons.2 ⟨hfresh, h.tokens⟩
  connections := by
    refine List.nodup_cons.2 ⟨fun hmem => ?_, h.connections⟩
    obtain ⟨p, hp, heq⟩ := List.mem_map.1 hmem
    exact absurd (h.opening hopening p hp) (by simp [heq])

/-! ### The calls -/

/-- What the calls and the queue keep. -/
structure CallInv (s : LinkState α) : Prop where
  captured : ∀ c ∈ s.calls, ∀ x, c.captured = some x →
    (x.connection, x.token) ∈ s.issued ∧ ∀ t, c.session = some t → x.token = t
  session : ∀ c ∈ s.calls, ∀ t, c.session = some t → ∃ n, (n, t) ∈ s.issued
  finished : ∀ c ∈ s.calls, c.result = some (.ok ()) → c.envs = []
  asked : ∀ i c, s.calls[i]? = some c → ∀ t, c.session = some t →
    (s.pushed.filter (·.call = i)).map (·.env) ++ c.envs.map (withBearer t) =
      c.asked.map (withBearer t)
  known : ∀ f ∈ s.pushed, f.call < s.calls.length
  own : ∀ f ∈ s.pushed, ∃ t, (f.queuedFor, t) ∈ s.issued ∧ carried f.env = some (bearerArray t) ∧
    ∀ c, s.calls[f.call]? = some c → ∀ t', c.session = some t' → t' = t
  queued : ∀ f ∈ s.queue, f.queuedFor = s.connection
  numbers : ∀ n (f : QueuedFrame α), s.pushed[n]? = some f → f.number = n
  order : List.Sublist (s.written.map (·.frame) ++ s.queue) s.pushed
  written : ∀ w ∈ s.written, w.frame.queuedFor = w.connection

lemma CallInv.new : CallInv (.new : LinkState α) where
  captured := by rintro _ ⟨⟩
  session := by rintro _ ⟨⟩
  finished := by rintro _ ⟨⟩
  asked := by rintro _ _ ⟨⟩
  known := by rintro _ ⟨⟩
  own := by rintro _ ⟨⟩
  queued := by rintro _ ⟨⟩
  numbers := by rintro _ _ ⟨⟩
  order := .refl _
  written := by rintro _ ⟨⟩

/-- **Reading it off.** -/
lemma FramesSound.of_inv (hl : LoopInv s) (h : CallInv s) : FramesSound s where
  ownBearer w hw := by
    have hmem : w.frame ∈ s.pushed :=
      h.order.mem (List.mem_append_left _ (List.mem_map_of_mem hw))
    obtain ⟨t, hissued, hcarried, -⟩ := h.own _ hmem
    rw [h.written w hw] at hissued
    exact ⟨t, fun t' => ⟨hl.bearer_unique hissued, fun heq => heq ▸ hissued⟩, hcarried⟩
  inOrder := by
    have hsub : List.Sublist (s.written.map (·.frame.number)) (s.pushed.map (·.number)) := by
      have := ((List.sublist_append_left _ _).trans h.order).map (·.number)
      rwa [List.map_map] at this
    refine List.Pairwise.sublist hsub (List.pairwise_iff_getElem.2 fun i j hi hj hij => ?_)
    simp only [List.length_map] at hi hj
    simpa [h.numbers i _ (List.getElem?_eq_getElem hi), h.numbers j _ (List.getElem?_eq_getElem hj)]
      using hij
  pushed w hw := by
    have hmem : w.frame ∈ s.pushed :=
      h.order.mem (List.mem_append_left _ (List.mem_map_of_mem hw))
    obtain ⟨n, hn⟩ := List.mem_iff_getElem?.1 hmem
    rw [h.numbers n _ hn, hn]
  together i c hc hsession hresult := by
    obtain ⟨t, ht⟩ := Option.isSome_iff_exists.1 hsession
    obtain ⟨n, hn⟩ := h.session c (List.mem_of_getElem? hc) t ht
    have hasked := h.asked i c hc t ht
    rw [h.finished c (List.mem_of_getElem? hc) hresult, List.map_nil, List.append_nil] at hasked
    have hqueued : ∀ f ∈ s.pushed, f.call = i → f.queuedFor = n := by
      rintro f hf rfl
      obtain ⟨t', hissued, -, hsame⟩ := h.own f hf
      obtain rfl := hsame c hc t ht
      exact hl.connection_unique hn hissued
    refine ⟨n, t, hn, hasked, hqueued, fun w hw hcall => ?_⟩
    have hmem : w.frame ∈ s.pushed :=
      h.order.mem (List.mem_append_left _ (List.mem_map_of_mem hw))
    exact (h.written w hw).symm.trans (hqueued _ hmem hcall)

/-! ### Steps of a call -/

lemma getElem?_set_cases {β : Type*} {l : List β} {i j : ℕ} {a b : β}
    (h : (l.set i a)[j]? = some b) :
    (j = i ∧ b = a) ∨ (j ≠ i ∧ l[j]? = some b) := by
  rcases eq_or_ne j i with rfl | hne
  · obtain ⟨hlt, hb⟩ := List.getElem?_eq_some_iff.1 h
    exact .inl ⟨rfl, by simpa using hb.symm⟩
  · exact .inr ⟨hne, by rwa [List.getElem?_set_ne hne.symm] at h⟩

lemma getElem?_concat_cases {β : Type*} {l : List β} {j : ℕ} {a b : β}
    (h : (l ++ [a])[j]? = some b) :
    l[j]? = some b ∨ (j = l.length ∧ b = a) := by
  rcases Nat.lt_trichotomy j l.length with hlt | rfl | hgt
  · exact .inl (by rwa [List.getElem?_append_left hlt] at h)
  · exact .inr ⟨rfl, by simpa using h.symm⟩
  · rw [List.getElem?_eq_none (by simpa using Nat.succ_le_of_lt hgt)] at h
    cases h

/-- One call is replaced by another of the same session and envelopes. -/
lemma CallInv.setCall (h : CallInv s) {i : ℕ} {c c' : SendCall α} (hc : s.calls[i]? = some c)
    (hsession : c'.session = c.session) (henvs : c'.envs = c.envs) (hasked : c'.asked = c.asked)
    (hcaptured : ∀ x, c'.captured = some x →
      (x.connection, x.token) ∈ s.issued ∧ ∀ t, c'.session = some t → x.token = t)
    (hresult : c'.result = some (.ok ()) → c'.envs = []) : CallInv (s.setCall i c') := by
  have hmem := List.mem_of_getElem? hc
  refine ⟨fun d hd => ?_, fun d hd => ?_, fun d hd => ?_, fun j d hd => ?_, fun f hf => ?_,
    fun f hf => ?_, h.queued, h.numbers, h.order, h.written⟩
  · rcases List.mem_or_eq_of_mem_set hd with hd | rfl
    · exact h.captured d hd
    · exact hcaptured
  · rcases List.mem_or_eq_of_mem_set hd with hd | rfl
    · exact h.session d hd
    · rw [hsession]
      exact h.session c hmem
  · rcases List.mem_or_eq_of_mem_set hd with hd | rfl
    · exact h.finished d hd
    · exact hresult
  · rcases getElem?_set_cases hd with ⟨rfl, rfl⟩ | ⟨hne, hd⟩
    · rw [hsession, henvs, hasked]
      exact h.asked j c hc
    · exact h.asked j d hd
  · rw [LinkState.setCall, List.length_set]
    exact h.known f hf
  · obtain ⟨t, hissued, hcarried, hsame⟩ := h.own f hf
    refine ⟨t, hissued, hcarried, fun d hd => ?_⟩
    rcases getElem?_set_cases hd with ⟨rfl, rfl⟩ | ⟨hne, hd⟩
    · rw [hsession]
      exact hsame c hc
    · exact hsame d hd

/-- A call begins. -/
lemma CallInv.begin (h : CallInv s) {c : SendCall α} (hcaptured : c.captured = none)
    (hasked : c.asked = c.envs) (hsession : ∀ t, c.session = some t → ∃ n, (n, t) ∈ s.issued)
    (hresult : c.result = some (.ok ()) → c.envs = []) :
    CallInv { s with calls := s.calls ++ [c] } := by
  refine ⟨fun d hd => ?_, fun d hd => ?_, fun d hd => ?_, fun j d hd => ?_, fun f hf => ?_,
    fun f hf => ?_, h.queued, h.numbers, h.order, h.written⟩
  · rcases List.mem_append.1 hd with hd | hd
    · exact h.captured d hd
    · obtain rfl := List.mem_singleton.1 hd
      intro x hx
      rw [hcaptured] at hx
      cases hx
  · rcases List.mem_append.1 hd with hd | hd
    · exact h.session d hd
    · obtain rfl := List.mem_singleton.1 hd
      exact hsession
  · rcases List.mem_append.1 hd with hd | hd
    · exact h.finished d hd
    · obtain rfl := List.mem_singleton.1 hd
      exact hresult
  · rcases getElem?_concat_cases hd with hd | ⟨rfl, rfl⟩
    · exact h.asked j d hd
    · intro t _
      -- no frame is of a call that is only now begun
      have hnone : s.pushed.filter (·.call = s.calls.length) = [] := by
        refine List.filter_eq_nil_iff.2 fun f hf => ?_
        simpa using (h.known f hf).ne
      rw [hnone, hasked]
      rfl
  · rw [List.length_append]
    exact (h.known f hf).trans_le (Nat.le_add_right _ _)
  · obtain ⟨t, hissued, hcarried, hsame⟩ := h.own f hf
    refine ⟨t, hissued, hcarried, fun d hd => ?_⟩
    rcases getElem?_concat_cases hd with hd | ⟨heq, -⟩
    · exact hsame d hd
    · exact absurd heq (h.known f hf).ne

/-- A frame is pushed to the queue that its call saw. -/
lemma CallInv.push (h : CallInv s) {i : ℕ} {c : SendCall α} (hc : s.calls[i]? = some c)
    {x : Captured} (hx : c.captured = some x) (hkept : x.connection = s.connection)
    {env : OutEnvelope α} {rest : List (OutEnvelope α)} (henvs : c.envs = env :: rest) :
    CallInv { s.setCall i c.next with
      queue := s.queue ++ [s.frame i x env], pushed := s.pushed ++ [s.frame i x env] } := by
  have hmem := List.mem_of_getElem? hc
  obtain ⟨hissued, hsame⟩ := h.captured c hmem x hx
  rw [hkept] at hissued
  have hnext : c.next.envs = rest := by simp [SendCall.next, henvs]
  refine ⟨fun d hd => ?_, fun d hd => ?_, fun d hd => ?_, fun j d hd t ht => ?_, fun f hf => ?_,
    fun f hf => ?_, fun f hf => ?_, fun n f hf => ?_, ?_, h.written⟩
  · rcases List.mem_or_eq_of_mem_set hd with hd | rfl
    · exact h.captured d hd
    · rintro _ ⟨⟩
  · rcases List.mem_or_eq_of_mem_set hd with hd | rfl
    · exact h.session d hd
    · exact h.session c hmem
  · rcases List.mem_or_eq_of_mem_set hd with hd | rfl
    · exact h.finished d hd
    · simp [SendCall.next, henvs]
  · rw [List.filter_append, List.map_append]
    rcases getElem?_set_cases hd with ⟨rfl, rfl⟩ | ⟨hne, hd⟩
    · have := h.asked j c hc t ht
      rw [henvs, List.map_cons] at this
      have hframe : ([s.frame j x env].filter (·.call = j)).map (·.env) = [withBearer t env] := by
        simp [LinkState.frame, hsame t ht]
      rw [hframe, hnext, List.append_assoc, List.singleton_append]
      exact this
    · have hframe : ([s.frame i x env].filter (·.call = j)).map (·.env) = [] := by
        simp [LinkState.frame, hne.symm]
      rw [hframe, List.append_nil]
      exact h.asked j d hd t ht
  · rw [LinkState.setCall, List.length_set]
    rcases List.mem_append.1 hf with hf | hf
    · exact h.known f hf
    · obtain rfl := List.mem_singleton.1 hf
      exact (List.getElem?_eq_some_iff.1 hc).1
  · rcases List.mem_append.1 hf with hf | hf
    · obtain ⟨t, hissued, hcarried, hsame⟩ := h.own f hf
      refine ⟨t, hissued, hcarried, fun d hd => ?_⟩
      rcases getElem?_set_cases hd with ⟨heq, rfl⟩ | ⟨-, hd⟩
      · exact hsame c (heq ▸ hc)
      · exact hsame d hd
    · obtain rfl := List.mem_singleton.1 hf
      refine ⟨x.token, hissued, carried_withBearer _ _, fun d hd t ht => ?_⟩
      rcases getElem?_set_cases hd with ⟨-, rfl⟩ | ⟨hne, -⟩
      · exact (hsame t ht).symm
      · exact absurd rfl hne
  · rcases List.mem_append.1 hf with hf | hf
    · exact h.queued f hf
    · obtain rfl := List.mem_singleton.1 hf
      rfl
  · rcases getElem?_concat_cases hf with hf | ⟨rfl, rfl⟩
    · exact h.numbers n f hf
    · rfl
  · rw [← List.append_assoc]
    exact h.order.append (.refl _)

/-! ### Steps of the loop -/

/-- The loop moves on with the queue as it is. -/
lemma CallInv.moves (h : CallInv s) {p : ConnPhase} {l : LoopAt} {tx : Option ℕ} {receiving : Bool}
    {resumeToken : Option (List UInt8)} {bearer : Option BearerRecord} :
    CallInv { s with
      phase := p, loop := l, bearer := bearer, resumeToken := resumeToken, outboundTx := tx,
      receiving := receiving } :=
  ⟨h.captured, h.session, h.finished, h.asked, h.known, h.own, h.queued, h.numbers,
    h.order, h.written⟩

/-- Part of the queue is dropped. -/
lemma CallInv.drops (h : CallInv s) {queue : List (QueuedFrame α)}
    (hsub : List.Sublist queue s.queue) :
    CallInv { s with queue := queue } :=
  ⟨h.captured, h.session, h.finished, h.asked, h.known, h.own, fun f hf => h.queued f (hsub.mem hf),
    h.numbers, ((List.Sublist.refl _).append hsub).trans h.order, h.written⟩

/-- The queue is empty when a new connection is opened. -/
lemma CallInv.opened (h : CallInv s) (hempty : s.queue = []) :
    CallInv { s with loop := .connecting, connection := s.connection + 1 } :=
  ⟨h.captured, h.session, h.finished, h.asked, h.known, h.own,
    fun _ hf => absurd (hempty ▸ hf) List.not_mem_nil, h.numbers, h.order, h.written⟩

/-- What is known to be issued stays so. -/
lemma CallInv.issue (h : CallInv s) (p : ℕ × Token) :
    CallInv { s with issued := p :: s.issued } where
  captured c hc x hx := ⟨List.mem_cons_of_mem _ (h.captured c hc x hx).1, (h.captured c hc x hx).2⟩
  session c hc t ht := by
    obtain ⟨n, hn⟩ := h.session c hc t ht
    exact ⟨n, List.mem_cons_of_mem _ hn⟩
  finished := h.finished
  asked := h.asked
  known := h.known
  own f hf := by
    obtain ⟨t, hissued, hrest⟩ := h.own f hf
    exact ⟨t, List.mem_cons_of_mem _ hissued, hrest⟩
  queued := h.queued
  numbers := h.numbers
  order := h.order
  written := h.written

/-- The first frame of the queue is written. -/
lemma CallInv.writes (h : CallInv s) {f : QueuedFrame α} {rest : List (QueuedFrame α)}
    (hqueue : s.queue = f :: rest) :
    CallInv { s with queue := rest, written := s.written ++ [⟨s.connection, f⟩] } where
  captured := h.captured
  session := h.session
  finished := h.finished
  asked := h.asked
  known := h.known
  own := h.own
  queued g hg := h.queued g (hqueue ▸ List.mem_cons_of_mem _ hg)
  numbers := h.numbers
  order := by
    have horder := h.order
    rw [hqueue] at horder
    simpa using horder
  written w hw := by
    rcases List.mem_append.1 hw with hw | hw
    · exact h.written w hw
    · obtain rfl := List.mem_singleton.1 hw
      exact h.queued f (hqueue ▸ List.mem_cons_self)

/-- What every run keeps in which frames are pushed in time. -/
structure LinkInv (s : LinkState α) : Prop where
  ofLoop : LoopInv s
  ofCalls : CallInv s

lemma handshakeFrame_inv {h : Handshake} {f : HandshakeFrame} (hinv : LinkInv s)
    (hloop : s.loop = .handshaking h) (hf : handshakeFrame h f s = some s') : LinkInv s' := by
  have hopening : s.loop.opening = true := by rw [hloop, LoopAt.opening]
  have hdown : s.phase ≠ .authenticated := fun hp => by
    have := hinv.ofLoop.up.1 hp
    rw [hloop] at this
    cases this
  unfold handshakeFrame at hf
  cases hrun : runHandshake s.bearer h f with
  | goOn h' =>
    rw [hrun] at hf
    cases hf
    exact ⟨hinv.ofLoop.down (.inl rfl) hdown rfl fun _ => hopening, hinv.ofCalls.moves⟩
  | ended r =>
    rw [hrun] at hf
    cases hf
    cases r with
    | resumeRejected =>
      exact ⟨hinv.ofLoop.down (.inr rfl) hdown rfl (by rintro ⟨⟩), hinv.ofCalls.moves⟩
    | _ =>
      exact ⟨hinv.ofLoop.down (.inr rfl) (by rintro ⟨⟩) rfl (by rintro ⟨⟩), hinv.ofCalls.moves⟩
  | authenticated b resumeToken =>
    simp only [hrun] at hf
    obtain ⟨hfresh, heq⟩ := Option.ite_none_left_eq_some.1 hf
    cases heq
    exact ⟨hinv.ofLoop.authOk hopening hfresh, (hinv.ofCalls.issue _).moves⟩

/-- One step of the loop. -/
lemma loopStep_inv {i : LoopInput} (h : LinkInv s) (hi : loopStep s i = some s') : LinkInv s' := by
  cases i with
  | reconnecting =>
    obtain ⟨-, heq⟩ := Option.ite_none_right_eq_some.1 hi
    cases heq
    exact ⟨h.ofLoop.down (.inl rfl) (by rintro ⟨⟩) rfl (by rintro ⟨⟩), h.ofCalls.moves⟩
  | connecting =>
    obtain ⟨-, heq⟩ := Option.ite_none_right_eq_some.1 hi
    cases heq
    exact ⟨h.ofLoop.down (.inl rfl) (by rintro ⟨⟩) rfl (by rintro ⟨⟩), h.ofCalls.moves⟩
  | discard =>
    obtain ⟨-, heq⟩ := Option.ite_none_right_eq_some.1 hi
    cases heq
    exact ⟨h.ofLoop.sends, h.ofCalls.drops (List.tail_sublist _)⟩
  | drained =>
    obtain ⟨⟨hloop, hempty⟩, heq⟩ := Option.ite_none_right_eq_some.1 hi
    cases heq
    exact ⟨h.ofLoop.opened (by simp [hloop, LoopAt.up]),
      h.ofCalls.opened (List.isEmpty_iff.1 hempty)⟩
  | opened =>
    obtain ⟨hloop, heq⟩ := Option.ite_none_right_eq_some.1 hi
    cases heq
    exact ⟨h.ofLoop.down (.inl rfl) (by rintro ⟨⟩) rfl fun _ => by rw [hloop, LoopAt.opening],
      h.ofCalls.moves⟩
  | helloSent =>
    obtain ⟨hloop, heq⟩ := Option.ite_none_right_eq_some.1 hi
    cases heq
    have hdown : s.phase ≠ .authenticated := fun hp => by
      simpa [hloop, LoopAt.up] using h.ofLoop.up.1 hp
    exact ⟨h.ofLoop.down (.inl rfl) hdown rfl fun _ => by rw [hloop, LoopAt.opening],
      h.ofCalls.moves⟩
  | failed =>
    obtain ⟨-, heq⟩ := Option.ite_none_right_eq_some.1 hi
    cases heq
    exact ⟨h.ofLoop.down (.inr rfl) (by rintro ⟨⟩) rfl (by rintro ⟨⟩), h.ofCalls.moves⟩
  | frame f =>
    obtain ⟨hs, hhandshake, hi⟩ := Option.bind_eq_some_iff.1 hi
    refine handshakeFrame_inv h ?_ hi
    cases hloop : s.loop <;> simp [hloop, LoopAt.handshake] at hhandshake
    rw [hhandshake]
  | enterIdle =>
    obtain ⟨hloop, heq⟩ := Option.ite_none_right_eq_some.1 hi
    cases heq
    exact ⟨h.ofLoop.stay (by simp [hloop, LoopAt.up]) rfl rfl, h.ofCalls.moves⟩
  | write ok =>
    obtain ⟨hloop, hi⟩ := Option.ite_none_right_eq_some.1 hi
    obtain ⟨f, hf, rfl⟩ := Option.map_eq_some_iff.1 hi
    obtain ⟨rest, hqueue⟩ := List.head?_eq_some_iff.1 hf
    have hup : s.loop.up = true := by simp [hloop, LoopAt.up]
    cases ok
    · exact ⟨(h.ofLoop.stay (l := .ended) hup rfl rfl).sends,
        (h.ofCalls.drops (List.tail_sublist _)).moves⟩
    · simp only [writeFrame, hqueue, List.tail_cons, if_true]
      exact ⟨h.ofLoop.sends, h.ofCalls.writes hqueue⟩
  | disconnected =>
    obtain ⟨hloop, heq⟩ := Option.ite_none_right_eq_some.1 hi
    cases heq
    exact ⟨h.ofLoop.stay (by simp [hloop, LoopAt.up]) rfl rfl, h.ofCalls.moves⟩
  | cancelled =>
    obtain ⟨-, heq⟩ := Option.ite_none_left_eq_some.1 hi
    cases heq
    have hloop : LoopInv { s with phase := .shuttingDown, loop := .stopped, receiving := false } :=
      h.ofLoop.down (.inl rfl) (by rintro ⟨⟩) rfl (by rintro ⟨⟩)
    exact ⟨hloop.sends, (h.ofCalls.drops (List.nil_sublist _)).moves⟩
  | start =>
    obtain ⟨-, heq⟩ := Option.ite_none_right_eq_some.1 hi
    cases heq
    exact ⟨h.ofLoop.down (.inr rfl) (by rintro ⟨⟩) rfl (by rintro ⟨⟩), h.ofCalls.moves⟩

/-! ### A run -/

lemma capture_eq_ok {session : Option Token} {x : Captured} (h : capture s session = .ok x) :
    s.phase = .authenticated ∧ x.connection = s.connection ∧ (∀ t, session = some t → x.token = t) ∧
      ∃ b, s.bearer = some b ∧ x.token = b.token := by
  unfold capture at h
  cases hbearer : s.bearer with
  | none => simp [hbearer] at h
  | some b =>
    simp only [hbearer] at h
    split_ifs at h with hsession hphase
    cases htx : s.outboundTx with
    | none => simp [htx] at h
    | some tx =>
      simp only [htx, Except.ok.injEq] at h
      subst h
      refine ⟨not_not.1 hphase, rfl, ?_, b, rfl, rfl⟩
      rintro t rfl
      exact (by simpa using hsession : t = b.token).symm

/-- One step. -/
lemma linkMachine_inv {limits : FrameLimits α} {i : LinkInput α} (h : LinkInv s)
    (hg : KeepsQueue s i) (hi : linkMachine limits s i = some s') : LinkInv s' := by
  obtain ⟨hloop, hcalls⟩ := h
  cases i with
  | sendEnvelope env =>
    cases hi
    exact ⟨hloop.sends, hcalls.begin rfl rfl (by rintro _ ⟨⟩) (by rintro ⟨⟩)⟩
  | sendEnvelopesPaced envs =>
    obtain rfl := Option.some.inj hi
    unfold sendEnvelopesPaced
    split
    · exact ⟨hloop.sends, hcalls.begin rfl rfl (by rintro _ ⟨⟩) (by rintro ⟨⟩)⟩
    · rename_i b hbearer
      refine ⟨hloop.sends, hcalls.begin rfl rfl ?_ fun hres => ?_⟩
      · rintro _ ⟨⟩
        exact hloop.bearerIssued b hbearer
      · cases envs
        · rfl
        · cases hres
  | lockSection i =>
    obtain ⟨c, hc, hrest⟩ := Option.bind_eq_some_iff.1 hi
    obtain ⟨⟨hresult, -⟩, heq⟩ := Option.ite_none_right_eq_some.1 hrest
    cases heq
    unfold lockSection
    cases hcapture : capture s c.session with
    | error e => exact ⟨hloop.sends, hcalls.setCall hc rfl rfl rfl (by rintro _ ⟨⟩) (by rintro ⟨⟩)⟩
    | ok x =>
      obtain ⟨hphase, hconnection, hsame, b, hb, htoken⟩ := capture_eq_ok hcapture
      refine ⟨hloop.sends, hcalls.setCall hc rfl rfl rfl ?_ fun hok => ?_⟩
      · rintro _ ⟨⟩
        obtain ⟨b', hb', hissued⟩ := hloop.bearer (hloop.up.1 hphase)
        obtain rfl := Option.some.inj (hb.symm.trans hb')
        exact ⟨by rwa [hconnection, htoken], hsame⟩
      · rw [show c.result = some (.ok ()) from hok] at hresult
        cases hresult
  | push i =>
    obtain ⟨c, hc, hrest⟩ := Option.bind_eq_some_iff.1 hi
    obtain ⟨x, hx, hrest⟩ := Option.bind_eq_some_iff.1 hrest
    obtain ⟨env, henv, rfl⟩ := Option.map_eq_some_iff.1 hrest
    obtain ⟨rest, henvs⟩ := List.head?_eq_some_iff.1 henv
    have failed (e : SendError) : LinkInv (s.setCall i (c.finish (.error e))) :=
      ⟨hloop.sends, hcalls.setCall hc rfl rfl rfl (by rintro _ ⟨⟩) (by rintro ⟨⟩)⟩
    unfold pushFrame
    split
    · exact failed _
    · split_ifs
      · exact failed _
      · exact ⟨hloop.sends, hcalls.push hc hx (hg c hc x hx) henvs⟩
      · exact failed _
  | loop i => exact loopStep_inv ⟨hloop, hcalls⟩ hi

lemma LinkInv.of_reaches {limits : FrameLimits α}
    (r : (linkMachine limits).Reaches KeepsQueue .new s) : LinkInv s :=
  r.invariant ⟨.new, .new⟩ fun _ _ _ h hg hi => linkMachine_inv h hg hi

/-! ### A late push -/

/-- An idle loop can write the whole queue. -/
lemma exists_written (limits : FrameLimits α) (queue : List (QueuedFrame α))
    (hidle : s.loop = .idle) (hqueue : s.queue = queue) :
    ∃ s', (linkMachine limits).Reaches Machine.free s s' ∧ s'.issued = s.issued ∧
      (∀ w ∈ s.written, w ∈ s'.written) ∧ ∀ f ∈ queue, ⟨s.connection, f⟩ ∈ s'.written := by
  induction queue generalizing s with
  | nil => exact ⟨s, .refl, rfl, fun _ => id, by rintro _ ⟨⟩⟩
  | cons f rest ih =>
    have hstep : linkMachine limits s (.loop (.write true)) = some (writeFrame true f s) := by
      simp [linkMachine, loopStep, hidle, hqueue]
    obtain ⟨s', r, hissued, hwritten, hrest⟩ := @ih (writeFrame true f s) hidle
      (by simp [writeFrame, hqueue])
    refine ⟨s', .head ⟨_, trivial, hstep⟩ r, hissued, fun w hw => hwritten w ?_, fun g hg => ?_⟩
    · exact List.mem_append_left _ hw
    · rcases List.mem_cons.1 hg with rfl | hg
      · exact hwritten _ (List.mem_append_right _ (List.mem_singleton.2 rfl))
      · exact hrest g hg

lemma pushFrame_of_grow {limits : FrameLimits α} {i : ℕ} {c : SendCall α} {x : Captured}
    {env : OutEnvelope α} (hgrow : s.queue.length < (pushFrame limits i c x env s).queue.length) :
    pushFrame limits i c x env s = { s.setCall i c.next with
      queue := s.queue ++ [s.frame i x env], pushed := s.pushed ++ [s.frame i x env] } := by
  unfold pushFrame at hgrow ⊢
  split at hgrow
  · exact absurd hgrow (lt_irrefl _)
  · split_ifs at hgrow ⊢
    · exact absurd hgrow (lt_irrefl _)
    · rfl
    · exact absurd hgrow (lt_irrefl _)

/-- A frame that gets into the queue of a later connection, which is up, can be written to it. -/
lemma exists_not_sound {limits : FrameLimits α} (h : LinkInv s) (hidle : s.loop = .idle) {i : ℕ}
    {c : SendCall α} (hc : s.calls[i]? = some c) {x : Captured} (hx : c.captured = some x)
    (hlate : x.connection ≠ s.connection) (hi : linkMachine limits s (.push i) = some s')
    (hgrow : s.queue.length < s'.queue.length) :
    ∃ s'', (linkMachine limits).Reaches Machine.free s' s'' ∧ ¬FramesSound s'' := by
  obtain ⟨env, -, rfl⟩ : ∃ env, c.envs.head? = some env ∧ pushFrame limits i c x env s = s' := by
    simpa [linkMachine, hc, hx] using hi
  rw [pushFrame_of_grow hgrow]
  obtain ⟨s'', r, hissued, -, hwritten⟩ := exists_written limits (s.queue ++ [s.frame i x env])
    (s := { s.setCall i c.next with
      queue := s.queue ++ [s.frame i x env], pushed := s.pushed ++ [s.frame i x env] }) hidle rfl
  refine ⟨s'', r, fun hsound => hlate ?_⟩
  obtain ⟨t, hown, hcarried⟩ := hsound.ownBearer _
    (hwritten _ (List.mem_append_right _ (List.mem_singleton.2 rfl)))
  obtain rfl := bearerArray_inj (Option.some.inj ((carried_withBearer _ _).symm.trans hcarried))
  have hissued' := (hown _).2 rfl
  rw [hissued] at hissued'
  exact h.ofLoop.connection_unique hissued' (h.ofCalls.captured c (List.mem_of_getElem? hc) x hx).1

/-- **Frames carry the connection's own bearer** in every run in which frames are pushed in time;
from any state of such a run, a late push to the queue of a connection that is up can go wrong. -/
theorem frames_sound (limits : FrameLimits α)
    (r : (linkMachine limits).Reaches KeepsQueue .new s) :
    FramesSound s ∧ ∀ i c x s', s.loop = .idle → s.calls[i]? = some c → c.captured = some x →
      x.connection ≠ s.connection → linkMachine limits s (.push i) = some s' →
      s.queue.length < s'.queue.length →
      ∃ s'', (linkMachine limits).Reaches Machine.free s' s'' ∧ ¬FramesSound s'' :=
  have hinv : LinkInv s := .of_reaches r
  ⟨.of_inv hinv.ofLoop hinv.ofCalls, fun _ _ _ _ hidle hc hx hlate =>
    exists_not_sound hinv hidle hc hx hlate⟩

instance (s : LinkState α) (i : LinkInput α) : Decidable (KeepsQueue s i) :=
  match i with
  | .push i => inferInstanceAs (Decidable (∀ c ∈ s.calls[i]?, ∀ x ∈ c.captured,
      x.connection = s.connection))
  | .sendEnvelope _ | .sendEnvelopesPaced _ | .lockSection _ | .loop _ => isTrue trivial

/-! ### A frame that comes late -/

namespace FrameRace

def limits : FrameLimits Unit := ⟨fun _ => .ok 100, 1000⟩

def envelope (text : String) : OutEnvelope Unit := ⟨(), .object [("text", .string text)]⟩

/-- A connection, up to the bearer it is issued. -/
def connect (byte : UInt8) : List (LinkInput Unit) :=
  [.connecting, .drained, .opened, .helloSent, .frame (.welcome (.ok ())),
    .frame (.challenge (.ok (List.replicate 32 0))),
    .frame (.authOk (.ok ⟨1, List.replicate 32 byte, 0, List.replicate 32 9, some [byte]⟩)),
    .enterIdle].map .loop

/-- A call captures the first bearer; the connection drops and is resumed before the call pushes. -/
def late : List (LinkInput Unit) :=
  .loop .start :: connect 1 ++ [.sendEnvelope (envelope "hi"), .lockSection 0, .loop .disconnected,
    .loop .reconnecting] ++ connect 2

lemma exists_late : ∃ s, (linkMachine limits).Reaches KeepsQueue .new s ∧ s.loop = .idle ∧
    ∃ c x s', s.calls[0]? = some c ∧ c.captured = some x ∧ x.connection ≠ s.connection ∧
      linkMachine limits s (.push 0) = some s' ∧ s.queue.length < s'.queue.length := by
  refine Machine.exists_reaches_of_play late (fun s => decide (s.loop = .idle) &&
    s.calls[0]?.any fun c => c.captured.any fun x => decide (x.connection ≠ s.connection) &&
      (linkMachine limits s (.push 0)).any fun s' => decide (s.queue.length < s'.queue.length))
    (fun s h => ?_) (by decide)
  simp only [Bool.and_eq_true, decide_eq_true_eq, Option.any_eq_true] at h
  obtain ⟨hidle, c, hc, x, hx, hlate, s', hs', hgrow⟩ := h
  exact ⟨hidle, c, x, s', hc, hx, hlate, hs', hgrow⟩

/-- **A frame with the bearer of before** goes out on the connection that is resumed. -/
theorem not_frames_sound :
    ∃ s, (linkMachine limits).Reaches Machine.free .new s ∧ ¬FramesSound s := by
  obtain ⟨s, r, hidle, c, x, s', hc, hx, hlate, hs', hgrow⟩ := exists_late
  obtain ⟨s'', r', hbad⟩ := exists_not_sound (.of_reaches r) hidle hc hx hlate hs' hgrow
  refine ⟨s'', .trans (r.lift id fun _ _ ⟨i, _, hi⟩ => ⟨i, trivial, hi⟩)
    (.head ⟨_, trivial, hs'⟩ r'), hbad⟩

/-- A paced call of two frames, both written. -/
def paced : List (LinkInput Unit) :=
  .loop .start :: connect 1 ++ [.sendEnvelopesPaced [envelope "a", envelope "b"], .lockSection 0,
    .push 0, .lockSection 0, .loop (.write true), .push 0, .loop (.write true)]

theorem frames_sound_paced : ∃ s : LinkState Unit, FramesSound s ∧ s.written.length = 2 := by
  have hplay : ∃ s, (linkMachine limits).Reaches KeepsQueue .new s ∧ s.written.length = 2 :=
    Machine.exists_reaches_of_play paced (fun s => decide (s.written.length = 2))
      (fun _ h => of_decide_eq_true h) (by decide)
  obtain ⟨s, r, hs⟩ := hplay
  exact ⟨s, (frames_sound limits r).1, hs⟩

end FrameRace

end Locast.Client
