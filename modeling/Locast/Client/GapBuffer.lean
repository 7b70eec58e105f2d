import Locast.Client.PlaybackStore
import Locast.Lib.Machine
import Mathlib.Tactic.Linarith

/-!
# The gap buffer of a sender (`drift/dedup.ts`)

The commands of each sender reach the buffer in any order, each at most once, with ticks between
them.  What is handed out comes in order and nothing is lost, as long as no number 1 comes late and
no command closes a gap before a parked one that leaves another.
-/

namespace Locast.Client

open Locast.Lib Locast.Protocol

/-! ### Runs -/

/-- The buffer; what reached it, what it handed out to be applied and what it ever parked are kept
for the statements. -/
structure GapBuffer where
  state : DedupState
  arrived : List PlaybackStateEvent
  handed : List PlaybackStateEvent
  parked : List PlaybackStateEvent
  deriving DecidableEq

inductive GapInput where
  | arrive (e : PlaybackStateEvent) (nowMs : ℤ)
  | tick (nowMs : ℤ)

/-- What a decision hands out. -/
def DedupDecision.handed (e : PlaybackStateEvent) : DedupDecision → List PlaybackStateEvent
  | .apply drain => e :: drain.toList
  | _ => []

namespace GapBuffer

def start : GapBuffer := ⟨∅, [], [], []⟩

def evaluated (s : GapBuffer) (e : PlaybackStateEvent) (nowMs : ℤ) : GapBuffer :=
  let out := evaluateDedup s.state e nowMs
  { state := out.2
    arrived := s.arrived ++ [e]
    handed := s.handed ++ out.1.handed e
    parked := s.parked ++ if out.1 = .buffer then [e] else [] }

def ticked (s : GapBuffer) (nowMs : ℤ) : GapBuffer :=
  let out := tickDedup s.state nowMs
  { s with state := out.2, handed := s.handed ++ out.1 }

/-- The command has not reached the buffer. -/
def Fresh (s : GapBuffer) (e : PlaybackStateEvent) : Prop :=
  0 < e.monotonicSeq ∧ ∀ e' ∈ s.arrived, e'.senderId = e.senderId → e'.monotonicSeq ≠ e.monotonicSeq

instance (s : GapBuffer) (e : PlaybackStateEvent) : Decidable (s.Fresh e) :=
  inferInstanceAs (Decidable (_ ∧ _))

end GapBuffer

/-- The commands of all senders, each at most once, in any order, and ticks at any readings of the
clock. -/
def gapBuffer : Machine GapBuffer GapInput
  | s, .arrive e nowMs => if s.Fresh e then some (s.evaluated e nowMs) else none
  | s, .tick nowMs => some (s.ticked nowMs)

/-! ### What the buffer is for -/

/-- The commands of a sender among these. -/
def ofSender (user : Uuid) (events : List PlaybackStateEvent) : List PlaybackStateEvent :=
  events.filter (·.senderId = user)

namespace GapBuffer

/-- The numbers of a sender that were handed out, in their order. -/
def numbers (s : GapBuffer) (user : Uuid) : List ℕ := (ofSender user s.handed).map (·.monotonicSeq)

/-- `lastAppliedSeq`, zero before the first command. -/
def last (s : GapBuffer) (user : Uuid) : ℕ := ((s.state.get user).map (·.lastAppliedSeq)).getD 0

/-- The command waits for its predecessors. -/
def Waits (s : GapBuffer) (e : PlaybackStateEvent) : Prop :=
  ∃ b, Parked s.state e.senderId b ∧ b.event = e

/-- A command of the same sender with a higher number was applied or parked. -/
def Outdone (s : GapBuffer) (e : PlaybackStateEvent) : Prop :=
  ∃ e' ∈ s.handed ++ s.parked, e'.senderId = e.senderId ∧ e.monotonicSeq < e'.monotonicSeq

/-- **In order, and nothing lost.** -/
structure Kept (s : GapBuffer) : Prop where
  inOrder : ∀ user, (s.numbers user).Pairwise (· < ·)
  nothingLost : ∀ e ∈ s.arrived, e ∈ s.handed ∨ s.Waits e ∨ s.Outdone e

/-- The command is no late number 1, and when it is the next one the parked command comes right
after it. -/
def Smooth (s : GapBuffer) : GapInput → Prop
  | .arrive e _ => ¬(e.monotonicSeq = 1 ∧ 1 < s.last e.senderId) ∧
      (e.monotonicSeq = s.last e.senderId + 1 →
        ∀ b, Parked s.state e.senderId b → b.seq = e.monotonicSeq + 1)
  | .tick _ => True

end GapBuffer

/-! ### One sender -/

/-- What concerns one sender. -/
structure SenderView where
  sender : Option SenderDedupState
  arrived : List PlaybackStateEvent
  handed : List PlaybackStateEvent
  parked : List PlaybackStateEvent

namespace SenderView

variable {v : SenderView} {user : Uuid} {e : PlaybackStateEvent}

def last (v : SenderView) : ℕ := (v.sender.map (·.lastAppliedSeq)).getD 0

def pending (v : SenderView) : Option BufferedEvent := v.sender.bind (·.pending)

def evaluated (v : SenderView) (e : PlaybackStateEvent) (nowMs : ℤ) : SenderView :=
  let out := evaluateSender v.sender e nowMs
  { sender := out.2 <|> v.sender
    arrived := v.arrived ++ [e]
    handed := v.handed ++ out.1.handed e
    parked := v.parked ++ if out.1 = .buffer then [e] else [] }

def ticked (v : SenderView) (nowMs : ℤ) : SenderView :=
  { v with
    sender := v.sender.map (·.ticked nowMs)
    handed := v.handed ++ ((v.sender.bind (·.held nowMs)).map (·.event)).toList }

/-- The command arrived and is neither handed out nor waiting, and none above it was handed out or
parked. -/
def Lost (v : SenderView) (e : PlaybackStateEvent) : Prop :=
  e ∈ v.arrived ∧ e ∉ v.handed ∧ (∀ b, v.pending = some b → b.event ≠ e) ∧
    ∀ e' ∈ v.handed ++ v.parked, e'.monotonicSeq ≤ e.monotonicSeq

/-- What every smooth step keeps. -/
structure Inv (v : SenderView) (user : Uuid) : Prop where
  inOrder : (v.handed.map (·.monotonicSeq)).Pairwise (· < ·)
  top : ∀ e ∈ v.handed, e.monotonicSeq ≤ v.last
  lastHanded : v.last = 0 ∨ ∃ e ∈ v.handed, e.monotonicSeq = v.last
  handedArrived : ∀ e ∈ v.handed, e ∈ v.arrived
  waiting : ∀ b, v.pending = some b → b.event.senderId = user ∧ b.seq = b.event.monotonicSeq ∧
    v.last + 1 < b.seq ∧ b.event ∈ v.arrived ∧ b.event ∈ v.parked
  parkedTop : ∀ e ∈ v.parked, e.monotonicSeq ≤ v.last ∨ ∃ b, v.pending = some b ∧
    e.monotonicSeq ≤ b.seq
  nothingLost : ∀ e, ¬v.Lost e

lemma Inv.empty (user : Uuid) : Inv ⟨none, [], [], []⟩ user where
  inOrder := .nil
  top _ he := absurd he List.not_mem_nil
  lastHanded := .inl rfl
  handedArrived _ he := absurd he List.not_mem_nil
  waiting _ hb := by cases hb
  parkedTop _ he := absurd he List.not_mem_nil
  nothingLost _ he := absurd he.1 List.not_mem_nil

/-- **Commands above the last one are handed out**, and whatever was parked is among them. -/
lemma Inv.advance (h : v.Inv user) {l new : List PlaybackStateEvent} {m : ℕ}
    (horder : (l.map (·.monotonicSeq)).Pairwise (· < ·)) (habove : ∀ e ∈ l, v.last < e.monotonicSeq)
    (hbelow : ∀ e ∈ l, e.monotonicSeq ≤ m) (hlast : ∃ e ∈ l, e.monotonicSeq = m)
    (harrived : ∀ e ∈ l, e ∈ v.arrived ++ new) (hnew : ∀ e ∈ new, e ∈ l)
    (hdrained : ∀ b, v.pending = some b → b.event ∈ l) :
    Inv ⟨some ⟨m, none⟩, v.arrived ++ new, v.handed ++ l, v.parked⟩ user := by
  have hup : v.last ≤ m := by
    obtain ⟨e, he, rfl⟩ := hlast
    exact (habove e he).le
  refine ⟨?_, ?_, ?_, ?_, fun b hb => (by cases hb), fun e he => .inl ?_, fun e he => ?_⟩
  · rw [List.map_append, List.pairwise_append]
    refine ⟨h.inOrder, horder, fun a ha c hc => ?_⟩
    obtain ⟨e, he, rfl⟩ := List.mem_map.1 ha
    obtain ⟨e', he', rfl⟩ := List.mem_map.1 hc
    exact (h.top e he).trans_lt (habove e' he')
  · intro e he
    rcases List.mem_append.1 he with he | he
    · exact (h.top e he).trans hup
    · exact hbelow e he
  · obtain ⟨e, he, heq⟩ := hlast
    exact .inr ⟨e, List.mem_append_right _ he, heq⟩
  · intro e he
    rcases List.mem_append.1 he with he | he
    · exact List.mem_append_left _ (h.handedArrived e he)
    · exact harrived e he
  · rcases h.parkedTop e he with hle | ⟨b, hb, hle⟩
    · exact hle.trans hup
    · exact (hle.trans (h.waiting b hb).2.1.le).trans (hbelow _ (hdrained b hb))
  · obtain ⟨harr, hhanded, -, htop⟩ := he
    have hold : e ∈ v.arrived := by
      rcases List.mem_append.1 harr with harr | harr
      · exact harr
      · exact absurd (List.mem_append_right _ (hnew e harr)) hhanded
    refine h.nothingLost e ⟨hold, fun hmem => hhanded (List.mem_append_left _ hmem), ?_, ?_⟩
    · rintro b hb rfl
      exact hhanded (List.mem_append_right _ (hdrained b hb))
    · intro e' he'
      refine htop e' ?_
      simp only [List.mem_append] at he' ⊢
      tauto

/-- **A command is parked** in the place of one below it. -/
lemma Inv.park (h : v.Inv user) (hown : e.senderId = user) (hgap : v.last + 1 < e.monotonicSeq)
    (hpending : ∀ b, v.pending = some b → b.seq < e.monotonicSeq) (nowMs : ℤ) :
    Inv ⟨some ⟨v.last, some ⟨e, nowMs, e.monotonicSeq⟩⟩, v.arrived ++ [e], v.handed ++ [],
      v.parked ++ [e]⟩
      user := by
  have harr : ∀ e', e' ∈ v.arrived → e' ∈ v.arrived ++ [e] := fun e' => List.mem_append_left _
  refine ⟨by rw [List.append_nil]; exact h.inOrder, by rw [List.append_nil]; exact h.top, ?_,
    fun e' he' => harr e' (h.handedArrived e' (by rwa [List.append_nil] at he')), ?_,
      fun e' he' => ?_,
    fun e' he' => ?_⟩
  · rw [List.append_nil]
    exact h.lastHanded
  · rintro b hb
    obtain rfl := Option.some.inj hb
    exact ⟨hown, rfl, hgap, by simp, by simp⟩
  · rcases List.mem_append.1 he' with hold | hself
    · rcases h.parkedTop e' hold with hle | ⟨b, hb, hle⟩
      · exact .inl hle
      · exact .inr ⟨_, rfl, hle.trans (hpending b hb).le⟩
    · obtain rfl := List.mem_singleton.1 hself
      exact .inr ⟨_, rfl, le_rfl⟩
  · obtain ⟨hmem, hhanded, hwait, htop⟩ := he'
    rw [List.append_nil] at hhanded
    rcases List.mem_append.1 hmem with hold | hself
    · refine h.nothingLost e' ⟨hold, hhanded, ?_, fun e₁ he₁ => htop e₁ ?_⟩
      · rintro b hb rfl
        have hlt := hpending b hb
        rw [(h.waiting b hb).2.1] at hlt
        exact absurd (htop e (by simp)) (not_le.2 hlt)
      · simp only [List.mem_append] at he₁ ⊢
        tauto
    · exact hwait _ rfl (List.mem_singleton.1 hself).symm

/-- **A command is dropped** below one that was handed out or parked. -/
lemma Inv.drop (h : v.Inv user)
    (hbelow : ∃ e' ∈ v.handed ++ v.parked, e.monotonicSeq < e'.monotonicSeq) :
    Inv ⟨v.sender, v.arrived ++ [e], v.handed ++ [], v.parked ++ []⟩ user := by
  rw [List.append_nil, List.append_nil]
  refine ⟨h.inOrder, h.top, h.lastHanded, fun e' he' =>
    List.mem_append_left _ (h.handedArrived e' he'), fun b hb => ?_, h.parkedTop, fun e' he' => ?_⟩
  · obtain ⟨hown, hseq, hgap, harr, hparked⟩ := h.waiting b hb
    exact ⟨hown, hseq, hgap, List.mem_append_left _ harr, hparked⟩
  · obtain ⟨hmem, hhanded, hwait, htop⟩ := he'
    rcases List.mem_append.1 hmem with hold | hself
    · exact h.nothingLost e' ⟨hold, hhanded, hwait, htop⟩
    · obtain rfl := List.mem_singleton.1 hself
      obtain ⟨e₁, he₁, hlt⟩ := hbelow
      exact absurd (htop e₁ he₁) (not_le.2 hlt)

/-- The command is not among those that arrived. -/
def Fresh (v : SenderView) (e : PlaybackStateEvent) : Prop :=
  0 < e.monotonicSeq ∧ ∀ e' ∈ v.arrived, e'.monotonicSeq ≠ e.monotonicSeq

def Smooth (v : SenderView) (e : PlaybackStateEvent) : Prop :=
  ¬(e.monotonicSeq = 1 ∧ 1 < v.last) ∧
    (e.monotonicSeq = v.last + 1 → ∀ b, v.pending = some b → b.seq = e.monotonicSeq + 1)

/-- **A command arrives.** -/
lemma Inv.evaluated (h : v.Inv user) (hown : e.senderId = user) (hfresh : v.Fresh e)
    (hsmooth : v.Smooth e) (nowMs : ℤ) : (v.evaluated e nowMs).Inv user ∧
    v.last ≤ (v.evaluated e nowMs).last := by
  obtain ⟨hpos, hnew⟩ := hfresh
  obtain ⟨hreset, hgapless⟩ := hsmooth
  rcases hs : v.sender with _ | d
  · have hlast : v.last = 0 := by rw [last, hs]; rfl
    have hpending : v.pending = none := by rw [pending, hs]; rfl
    by_cases hone : e.monotonicSeq = 1
    · have heval : v.evaluated e nowMs = ⟨some ⟨1, none⟩, v.arrived ++ [e], v.handed ++ [e],
          v.parked⟩ := by
        simp [SenderView.evaluated, evaluateSender, hs, hone, DedupDecision.handed]
      rw [heval]
      refine ⟨h.advance ?_ ?_ ?_ ?_ ?_ ?_ ?_, hlast.trans_le (Nat.zero_le _)⟩
      · exact List.pairwise_singleton _ _
      · simp [hlast, hone]
      · simp [hone]
      · simp [hone]
      · simp
      · simp
      · simp [hpending]
    · have heval : v.evaluated e nowMs = ⟨some ⟨v.last, some ⟨e, nowMs, e.monotonicSeq⟩⟩,
          v.arrived ++ [e], v.handed ++ [], v.parked ++ [e]⟩ := by
        simp [SenderView.evaluated, evaluateSender, hs, hone, hpos.ne', DedupDecision.handed, hlast]
      rw [heval]
      exact ⟨h.park hown (by omega) (by simp [hpending]) nowMs, le_rfl⟩
  have hlast : v.last = d.lastAppliedSeq := by rw [last, hs]; rfl
  have hpending : v.pending = d.pending := by rw [pending, hs]; rfl
  rw [hlast] at hreset hgapless
  by_cases hle : e.monotonicSeq ≤ d.lastAppliedSeq
  · have heval : v.evaluated e nowMs = ⟨v.sender, v.arrived ++ [e], v.handed ++ [],
        v.parked ++ []⟩ := by
      simp [SenderView.evaluated, evaluateSender, hs, hreset, hle, DedupDecision.handed]
    rw [heval]
    refine ⟨h.drop ?_, le_rfl⟩
    obtain hzero | ⟨e', he', htop⟩ := h.lastHanded
    · omega
    · have hne := hnew e' (h.handedArrived e' he')
      exact ⟨e', List.mem_append_left _ he', by omega⟩
  by_cases hnext : e.monotonicSeq = d.lastAppliedSeq + 1
  · rcases hp : d.pending with _ | p
    · have heval : v.evaluated e nowMs =
          ⟨some ⟨e.monotonicSeq, none⟩, v.arrived ++ [e], v.handed ++ [e], v.parked⟩ := by
        have hout : evaluateSender (some d) e nowMs =
            (.apply none, some ⟨e.monotonicSeq, none⟩) := by
          simp only [evaluateSender, if_neg hreset, if_neg hle, if_pos hnext, hp]
        simp [SenderView.evaluated, hs, hout, DedupDecision.handed]
      rw [heval]
      refine ⟨h.advance ?_ ?_ ?_ ?_ ?_ ?_ ?_, hlast.trans_le (not_le.1 hle).le⟩
      · exact List.pairwise_singleton _ _
      · simp [hlast, hnext]
      · simp
      · simp
      · simp
      · simp
      · simp [hpending, hp]
    · have hseq : p.seq = e.monotonicSeq + 1 := hgapless hnext p (hpending.trans hp)
      obtain ⟨-, hevent, -, harr, -⟩ := h.waiting p (hpending.trans hp)
      have heval : v.evaluated e nowMs = ⟨some ⟨e.monotonicSeq + 1, none⟩, v.arrived ++ [e],
          v.handed ++ [e, p.event], v.parked⟩ := by
        have hout : evaluateSender (some d) e nowMs =
            (.apply (some p.event), some ⟨e.monotonicSeq + 1, none⟩) := by
          simp only [evaluateSender, if_neg hreset, if_neg hle, if_pos hnext, hp, if_pos hseq]
        simp [SenderView.evaluated, hs, hout, DedupDecision.handed]
      rw [heval]
      refine ⟨h.advance ?_ ?_ ?_ ?_ ?_ ?_ ?_,
        hlast.trans_le ((not_le.1 hle).le.trans (Nat.le_succ _))⟩
      · simp only [List.map_cons, List.map_nil, List.pairwise_cons, List.mem_singleton, forall_eq]
        exact ⟨by omega, fun _ hmem => absurd hmem List.not_mem_nil, .nil⟩
      · simp only [List.mem_cons, List.not_mem_nil, or_false, forall_eq_or_imp, forall_eq]
        omega
      · simp only [List.mem_cons, List.not_mem_nil, or_false, forall_eq_or_imp, forall_eq]
        omega
      · exact ⟨p.event, by simp, by omega⟩
      · simp [harr]
      · simp
      · intro b hb
        rw [hpending, hp] at hb
        cases hb
        simp
  have hgap : v.last + 1 < e.monotonicSeq := by omega
  have hparks (hfree : ∀ p, d.pending = some p → p.seq < e.monotonicSeq) : v.evaluated e nowMs =
      ⟨some ⟨v.last, some ⟨e, nowMs, e.monotonicSeq⟩⟩, v.arrived ++ [e], v.handed ++ [],
        v.parked ++ [e]⟩ := by
    rcases hp : d.pending with _ | p
    · simp [SenderView.evaluated, evaluateSender, hs, hreset, hle, hnext, hp,
        DedupDecision.handed, hlast]
    · have := not_le.2 (hfree p hp)
      simp [SenderView.evaluated, evaluateSender, hs, hreset, hle, hnext, hp, DedupDecision.handed,
        hlast, this]
  rcases hp : d.pending with _ | p
  · rw [hparks (by simp [hp])]
    exact ⟨h.park hown hgap (by simp [hpending, hp]) nowMs, le_rfl⟩
  by_cases hover : e.monotonicSeq ≤ p.seq
  · have heval : v.evaluated e nowMs = ⟨v.sender, v.arrived ++ [e], v.handed ++ [],
        v.parked ++ []⟩ := by
      simp [SenderView.evaluated, evaluateSender, hs, hreset, hle, hnext, hp, hover,
        DedupDecision.handed]
    rw [heval]
    obtain ⟨-, hevent, -, harr, hparked⟩ := h.waiting p (hpending.trans hp)
    have hne := hnew p.event harr
    exact ⟨h.drop ⟨p.event, List.mem_append_right _ hparked, by omega⟩, le_rfl⟩
  · have hfree : ∀ b, d.pending = some b → b.seq < e.monotonicSeq := by
      intro b hb
      rw [hp] at hb
      cases hb
      exact not_le.1 hover
    rw [hparks hfree]
    exact ⟨h.park hown hgap (by rwa [hpending]) nowMs, le_rfl⟩

/-- **The clock ticks.** -/
lemma Inv.ticked (h : v.Inv user) (nowMs : ℤ) :
    (v.ticked nowMs).Inv user ∧ v.last ≤ (v.ticked nowMs).last := by
  cases hheld : v.sender.bind (·.held nowMs) with
  | none =>
    have hsame : v.ticked nowMs = v := by
      have hsender : v.sender.map (·.ticked nowMs) = v.sender := by
        cases hs : v.sender with
        | none => rfl
        | some d =>
          rw [hs, Option.bind_some] at hheld
          rw [Option.map_some, SenderDedupState.ticked, hheld]
      rw [SenderView.ticked, hsender, hheld, Option.map_none, Option.toList_none, List.append_nil]
    rw [hsame]
    exact ⟨h, le_rfl⟩
  | some p =>
    obtain ⟨d, hs, hd⟩ := Option.bind_eq_some_iff.1 hheld
    have hpending : v.pending = some p := by
      rw [pending, hs]
      exact (Option.filter_eq_some_iff.1 hd).1
    have hticked : v.ticked nowMs =
        ⟨some ⟨p.seq, none⟩, v.arrived ++ [], v.handed ++ [p.event], v.parked⟩ := by
      rw [SenderView.ticked, hheld, hs, Option.map_some, SenderDedupState.ticked, hd,
        List.append_nil]
      rfl
    obtain ⟨-, hevent, hgap, harr, -⟩ := h.waiting p hpending
    rw [hticked]
    refine ⟨h.advance ?_ ?_ ?_ ?_ ?_ ?_ ?_, ?_⟩
    · exact List.pairwise_singleton _ _
    · simp only [List.mem_singleton, forall_eq]
      omega
    · simp [hevent]
    · simp [hevent]
    · simp [harr]
    · simp
    · intro b hb
      rw [hpending] at hb
      cases hb
      simp
    · exact (Nat.le_succ _).trans hgap.le

/-- **A step that is not smooth** takes the last number back or loses the parked command. -/
lemma Inv.not_smooth (h : v.Inv user) (hfresh : v.Fresh e) (hsmooth : ¬v.Smooth e) (nowMs : ℤ) :
    (v.evaluated e nowMs).last < v.last ∨ ∃ e', (v.evaluated e nowMs).Lost e' := by
  by_cases hreset : e.monotonicSeq = 1 ∧ 1 < v.last
  · obtain ⟨d, hs⟩ : ∃ d, v.sender = some d := by
      cases hs : v.sender with
      | none =>
        have hlast : v.last = 0 := by rw [last, hs]; rfl
        omega
      | some d => exact ⟨d, rfl⟩
    have hlast : v.last = d.lastAppliedSeq := by rw [last, hs]; rfl
    left
    have heval : (v.evaluated e nowMs).last = 1 := by
      rw [hlast] at hreset
      simp [SenderView.evaluated, evaluateSender, hs, hreset, last]
    exact heval.trans_lt hreset.2
  · right
    have hgapped : ∃ b, e.monotonicSeq = v.last + 1 ∧ v.pending = some b ∧
        b.seq ≠ e.monotonicSeq + 1 := by
      unfold Smooth at hsmooth
      push Not at hsmooth
      obtain ⟨hnext, b, hb, hne⟩ := hsmooth (by push Not at hreset; exact hreset)
      exact ⟨b, hnext, hb, hne⟩
    obtain ⟨b, hnext, hb, hne⟩ := hgapped
    obtain ⟨d, hs, hp⟩ := Option.bind_eq_some_iff.1 hb
    have hlast : v.last = d.lastAppliedSeq := by rw [last, hs]; rfl
    obtain ⟨-, hevent, hgap, harr, hparked⟩ := h.waiting b hb
    have heval : v.evaluated e nowMs =
        ⟨some ⟨e.monotonicSeq, none⟩, v.arrived ++ [e], v.handed ++ [e], v.parked⟩ := by
      rw [hlast] at hreset hnext
      have hle : ¬e.monotonicSeq ≤ d.lastAppliedSeq := by omega
      have hout : evaluateSender (some d) e nowMs = (.apply none, some ⟨e.monotonicSeq, none⟩) := by
        simp only [evaluateSender, if_neg hreset, if_neg hle, if_pos hnext, hp, if_neg hne]
      simp [SenderView.evaluated, hs, hout, DedupDecision.handed]
    rw [heval]
    refine ⟨b.event, List.mem_append_left _ harr, fun hmem => ?_, fun b' hb' => (by cases hb'),
      fun e' he' => ?_⟩
    · rcases List.mem_append.1 hmem with hmem | hmem
      · have := h.top _ hmem
        omega
      · obtain rfl := List.mem_singleton.1 hmem
        omega
    · rcases List.mem_append.1 he' with hmem | hmem
      · rcases List.mem_append.1 hmem with hmem | hmem
        · have := h.top _ hmem
          omega
        · obtain rfl := List.mem_singleton.1 hmem
          omega
      · rcases h.parkedTop e' hmem with hle | ⟨b', hb', hle⟩
        · omega
        · obtain rfl := Option.some.inj (hb.symm.trans hb')
          omega

end SenderView

/-! ### All senders -/

lemma mem_ofSender {user : Uuid} {e : PlaybackStateEvent} {l : List PlaybackStateEvent} :
    e ∈ ofSender user l ↔ e ∈ l ∧ e.senderId = user := by
  simp [ofSender]

@[simp] lemma ofSender_append (user : Uuid) (l m : List PlaybackStateEvent) :
    ofSender user (l ++ m) = ofSender user l ++ ofSender user m := List.filter_append l m

lemma ofSender_of_all {user : Uuid} {l : List PlaybackStateEvent} (h : ∀ e ∈ l, e.senderId = user) :
    ofSender user l = l := List.filter_eq_self.2 fun e he => decide_eq_true (h e he)

lemma ofSender_of_none {user : Uuid} {l : List PlaybackStateEvent}
    (h : ∀ e ∈ l, e.senderId ≠ user) :
    ofSender user l = [] := List.filter_eq_nil_iff.2 fun e he => by simpa using h e he

namespace GapBuffer

variable {s s' : GapBuffer} {user : Uuid} {e : PlaybackStateEvent}

/-- What the buffer has of a sender. -/
def view (s : GapBuffer) (user : Uuid) : SenderView :=
  ⟨s.state.get user, ofSender user s.arrived, ofSender user s.handed, ofSender user s.parked⟩

def Inv (s : GapBuffer) : Prop := ∀ user, (s.view user).Inv user

lemma Inv.start : Inv .start := fun user => .empty user

/-- A parked command is its sender's. -/
lemma Inv.own (h : s.Inv) {b : BufferedEvent} (hb : Parked s.state user b) :
    b.event.senderId = user :=
  ((h user).waiting b (bind_pending.2 hb)).1

lemma Inv.handed_sender (h : s.Inv) (nowMs : ℤ) :
    ∀ e' ∈ (evaluateSender (s.state.get e.senderId) e nowMs).1.handed e,
      e'.senderId = e.senderId := by
  intro e' he'
  rcases evaluateSender_cases (s.state.get e.senderId) e nowMs with
    ⟨-, hout⟩ | ⟨-, drain, m, hout, hdrain⟩ | ⟨-, ⟨m, hout⟩, -⟩
  · rw [hout] at he'
    cases he'
  · rw [hout] at he'
    rcases List.mem_cons.1 he' with rfl | hmem
    · rfl
    · obtain ⟨b, hb, rfl⟩ := hdrain e' (Option.mem_toList.1 hmem)
      exact h.own (bind_pending.1 hb)
  · rw [hout] at he'
    cases he'

/-- An arrival concerns its sender. -/
lemma Inv.view_evaluated (h : s.Inv) (nowMs : ℤ) :
    (s.evaluated e nowMs).view e.senderId = (s.view e.senderId).evaluated e nowMs := by
  have hhanded := ofSender_of_all (h.handed_sender (e := e) nowMs)
  have hself : ofSender e.senderId [e] = [e] := ofSender_of_all (by simp)
  have hparked : ofSender e.senderId (if (evaluateSender (s.state.get e.senderId) e nowMs).1 =
      .buffer then [e] else []) = if (evaluateSender (s.state.get e.senderId) e nowMs).1 =
      .buffer then [e] else [] :=
    ofSender_of_all fun e' he' => by
      split at he'
      · rw [List.mem_singleton.1 he']
      · cases he'
  simp only [view, evaluated, SenderView.evaluated, ofSender_append, evaluateDedup_get,
    if_pos, hself, Option.orElse_eq_orElse, Option.orElse_eq_or]
  rw [evaluateDedup]
  simp only [hhanded, hparked]
  rfl

lemma Inv.view_evaluated_other (h : s.Inv) (nowMs : ℤ) (hne : user ≠ e.senderId) :
    (s.evaluated e nowMs).view user = s.view user := by
  have hhanded := ofSender_of_none fun e' he' =>
    (h.handed_sender (e := e) nowMs e' he').trans_ne hne.symm
  have hself : ofSender user [e] = [] := ofSender_of_none (by simpa using hne.symm)
  have hparked : ofSender user (if (evaluateSender (s.state.get e.senderId) e nowMs).1 =
      .buffer then [e] else []) = [] := ofSender_of_none fun e' he' => by
    split at he'
    · rw [List.mem_singleton.1 he']
      exact hne.symm
    · cases he'
  simp only [view, evaluated, ofSender_append, evaluateDedup_get, if_neg hne, hself]
  rw [evaluateDedup]
  simp only [hhanded, hparked, List.append_nil]

/-- Of a tick a sender gets the event it held. -/
lemma Inv.ofSender_timedOut (h : s.Inv) (nowMs : ℤ) (user : Uuid) :
    ofSender user (timedOut s.state nowMs) =
    (((s.state.get user).bind (·.held nowMs)).map (·.event)).toList := by
  cases hget : s.state.get user with
  | none =>
    refine ofSender_of_none fun e he => ?_
    obtain ⟨user', b, hb, -, rfl⟩ := mem_timedOut.1 he
    rw [h.own hb]
    rintro rfl
    obtain ⟨d, hd, -⟩ := hb
    rw [hget] at hd
    cases hd
  | some d =>
    have hperm := (AList.vals_perm_of_get hget).filterMap fun d => (d.held nowMs).map (·.event)
    have hothers : ofSender user (timedOut (s.state.erase user) nowMs) = [] := by
      refine ofSender_of_none fun e he => ?_
      obtain ⟨user', b, ⟨d', hd', hp⟩, -, rfl⟩ := mem_timedOut.1 he
      rw [AList.get_erase] at hd'
      split at hd'
      · cases hd'
      · rename_i hne
        rw [h.own ⟨d', hd', hp⟩]
        exact hne
    have hfilter : (ofSender user (timedOut s.state nowMs)).Perm
        (ofSender user ((d :: (s.state.erase user).vals).filterMap fun d =>
          (d.held nowMs).map (·.event))) :=
      hperm.filter _
    rw [Option.bind_some]
    cases hheld : d.held nowMs with
    | none =>
      rw [List.filterMap_cons_none (by rw [hheld]; rfl)] at hfilter
      exact List.perm_nil.1 (hothers ▸ hfilter)
    | some p =>
      have hpending : Parked s.state user p := ⟨d, hget, (Option.filter_eq_some_iff.1 hheld).1⟩
      have hself : ofSender user [p.event] = [p.event] :=
        ofSender_of_all (by simpa using h.own hpending)
      rw [List.filterMap_cons_some (by rw [hheld]; rfl), ← List.singleton_append, ofSender_append,
        hself] at hfilter
      exact List.perm_singleton.1 (hothers ▸ hfilter)

lemma Inv.view_ticked (h : s.Inv) (nowMs : ℤ) (user : Uuid) :
    (s.ticked nowMs).view user = (s.view user).ticked nowMs := by
  simp only [view, ticked, SenderView.ticked, ofSender_append, tickDedup, AList.get_mapVals,
    h.ofSender_timedOut nowMs user]

lemma fresh_view (h : s.Fresh e) : (s.view e.senderId).Fresh e :=
  ⟨h.1, fun e' he' => h.2 e' (mem_ofSender.1 he').1 (mem_ofSender.1 he').2⟩

lemma smooth_view {nowMs : ℤ} : s.Smooth (.arrive e nowMs) ↔ (s.view e.senderId).Smooth e := by
  have hpending : ∀ b, (s.view e.senderId).pending = some b ↔ Parked s.state e.senderId b :=
    fun b =>
    bind_pending
  simp only [Smooth, SenderView.Smooth, hpending]
  rfl

/-- A command that is lost is neither handed out nor waiting nor outdone. -/
lemma lost_iff : (s.view e.senderId).Lost e ↔
    e ∈ s.arrived ∧ ¬(e ∈ s.handed ∨ s.Waits e ∨ s.Outdone e) := by
  have hpending : ∀ b, (s.view e.senderId).pending = some b ↔ Parked s.state e.senderId b :=
    fun b =>
    bind_pending
  have hout : s.Outdone e ↔ ∃ e' ∈ ofSender e.senderId s.handed ++ ofSender e.senderId s.parked,
      e.monotonicSeq < e'.monotonicSeq := by
    simp only [Outdone, ← ofSender_append, mem_ofSender]
    exact ⟨fun ⟨e', hmem, hown, hlt⟩ => ⟨e', ⟨hmem, hown⟩, hlt⟩, fun ⟨e', ⟨hmem, hown⟩, hlt⟩ =>
      ⟨e', hmem, hown, hlt⟩⟩
  have hwait : s.Waits e ↔ ∃ b, (s.view e.senderId).pending = some b ∧ b.event = e := by
    simp only [Waits, hpending]
  rw [hout, hwait]
  simp only [SenderView.Lost, view, mem_ofSender, and_true]
  push Not
  exact Iff.rfl

lemma Inv.kept (h : s.Inv) : s.Kept where
  inOrder user := (h user).inOrder
  nothingLost e he := by
    by_contra hnot
    exact (h e.senderId).nothingLost e (lost_iff.2 ⟨he, hnot⟩)

/-- **One step.** -/
lemma Inv.step {i : GapInput} (h : s.Inv) (hsmooth : s.Smooth i) (hstep : gapBuffer s i = some s') :
    s'.Inv ∧ ∀ user, s.last user ≤ s'.last user := by
  cases i with
  | tick nowMs =>
    cases hstep
    have hview := h.view_ticked nowMs
    refine ⟨fun user => hview user ▸ ((h user).ticked nowMs).1, fun user => ?_⟩
    change (s.view user).last ≤ ((s.ticked nowMs).view user).last
    exact hview user ▸ ((h user).ticked nowMs).2
  | arrive e nowMs =>
    rw [gapBuffer] at hstep
    obtain ⟨hfresh, ⟨⟩⟩ := Option.ite_none_right_eq_some.1 hstep
    have hself := (h e.senderId).evaluated rfl (fresh_view hfresh) (smooth_view.1 hsmooth) nowMs
    have hview (user : Uuid) : (s.evaluated e nowMs).view user =
        if user = e.senderId then (s.view e.senderId).evaluated e nowMs else s.view user := by
      by_cases hu : user = e.senderId
      · rw [if_pos hu, hu, h.view_evaluated]
      · rw [if_neg hu, h.view_evaluated_other nowMs hu]
    refine ⟨fun user => ?_, fun user => ?_⟩
    · rw [hview]
      split
      · rename_i hu
        rw [hu]
        exact hself.1
      · exact h user
    · change (s.view user).last ≤ ((s.evaluated e nowMs).view user).last
      rw [hview]
      split
      · rename_i hu
        rw [hu]
        exact hself.2
      · exact le_rfl

/-- **A step that is not smooth** breaks what the buffer is for. -/
lemma Inv.smooth_of_kept {i : GapInput} (h : s.Inv) (hstep : gapBuffer s i = some s')
    (hkept : s'.Kept) (hlast : ∀ user, s.last user ≤ s'.last user) : s.Smooth i := by
  cases i with
  | tick nowMs => trivial
  | arrive e nowMs =>
    rw [gapBuffer] at hstep
    obtain ⟨hfresh, ⟨⟩⟩ := Option.ite_none_right_eq_some.1 hstep
    by_contra hnot
    rcases (h e.senderId).not_smooth (fresh_view hfresh) (mt smooth_view.2 hnot) nowMs
      with hlt | ⟨e', hlost⟩
    · rw [← h.view_evaluated] at hlt
      exact absurd (hlast e.senderId) (not_le.2 hlt)
    · rw [← h.view_evaluated] at hlost
      have hown : e'.senderId = e.senderId := (mem_ofSender.1 hlost.1).2
      rw [← hown] at hlost
      obtain ⟨harr, hgone⟩ := lost_iff.1 hlost
      exact hgone (hkept.nothingLost e' harr)

end GapBuffer

open GapBuffer in
/-- **The gap buffer.**  In every run of smooth steps what is handed out comes in order and nothing
is lost; a step keeps this, and takes no last number back, exactly when it is smooth; and a tick
hands out whatever has waited long enough. -/
theorem gap_buffer_keeps {s : GapBuffer} (hrun : gapBuffer.Reaches Smooth .start s) :
    s.Kept ∧
      (∀ i s', gapBuffer s i = some s' →
        ((s'.Kept ∧ ∀ user, s.last user ≤ s'.last user) ↔ s.Smooth i)) ∧
      ∀ nowMs user b, Parked s.state user b → b.TimedOut nowMs →
        b.event ∈ (s.ticked nowMs).handed := by
  have h : s.Inv := hrun.invariant Inv.start fun s i s' hs hsmooth hstep =>
    (hs.step hsmooth hstep).1
  refine ⟨h.kept, fun i s' hstep => ⟨fun hkept => h.smooth_of_kept hstep hkept.1 hkept.2,
    fun hsmooth => ?_⟩, fun nowMs user b hb ht =>
      List.mem_append_right _ (mem_timedOut.2 ⟨user, b, hb, ht, rfl⟩)⟩
  obtain ⟨hinv, hlast⟩ := h.step hsmooth hstep
  exact ⟨hinv.kept, hlast⟩

/-- The commands of one sender. -/
def command (n : ℕ) : PlaybackStateEvent := ⟨0, n, 0, 7, n, .play, 0⟩

lemma gapBuffer_arrive {s : GapBuffer} {e : PlaybackStateEvent} (h : s.Fresh e) (nowMs : ℤ) :
    gapBuffer s (.arrive e nowMs) = some (s.evaluated e nowMs) := if_pos h

/-- The second command comes first and is drained by the first. -/
def drainedRun : GapBuffer := (GapBuffer.start.evaluated (command 2) 0).evaluated (command 1) 1

theorem gap_buffer_keeps_drainedRun : drainedRun.Kept := by
  have hfirst : GapBuffer.start.Smooth (.arrive (command 2) 0) :=
    ⟨by decide, fun h => absurd h (by decide)⟩
  have hsecond : (GapBuffer.start.evaluated (command 2) 0).Smooth (.arrive (command 1) 1) := by
    refine ⟨by decide, fun _ b hb => ?_⟩
    have hparked : Parked (GapBuffer.start.evaluated (command 2) 0).state 7 ⟨command 2, 0, 2⟩ :=
      bind_pending.1 (by decide)
    exact congrArg BufferedEvent.seq (hb.unique hparked)
  exact (gap_buffer_keeps (.tail (.tail .refl ⟨_, hfirst, gapBuffer_arrive (by decide) 0⟩)
    ⟨_, hsecond, gapBuffer_arrive (by decide) 1⟩)).1

/-- The third command comes first, then the first. -/
def lossyRun : GapBuffer := (GapBuffer.start.evaluated (command 3) 0).evaluated (command 1) 1

/-- The second command comes first and is handed out after five seconds. -/
def waitedRun : GapBuffer := (GapBuffer.start.evaluated (command 2) 0).ticked 5000

/-- **A command that closes a gap loses a parked one behind another gap**, and a late number 1 takes
the last number back. -/
theorem not_gap_buffer_keeps :
    (gapBuffer.Reaches Machine.free .start lossyRun ∧ command 3 ∈ lossyRun.arrived ∧
      ¬(command 3 ∈ lossyRun.handed ∨ lossyRun.Waits (command 3) ∨ lossyRun.Outdone (command 3))) ∧
    gapBuffer.Reaches Machine.free .start waitedRun ∧
      gapBuffer waitedRun (.arrive (command 1) 5001) = some (waitedRun.evaluated (command 1) 5001) ∧
      (waitedRun.evaluated (command 1) 5001).last 7 < waitedRun.last 7 ∧
      (waitedRun.evaluated (command 1) 5001).numbers 7 = [2, 1] := by
  refine ⟨⟨?_, GapBuffer.lost_iff.1 ⟨by decide, by decide, fun b hb => ?_, by decide⟩⟩, ?_,
    ?_, by decide, by decide⟩
  · exact .tail (.tail .refl ⟨_, trivial, gapBuffer_arrive (by decide) 0⟩)
      ⟨_, trivial, gapBuffer_arrive (by decide) 1⟩
  · have hnone : (lossyRun.view 7).pending = none := by decide
    exact absurd (hb.symm.trans hnone) (Option.some_ne_none b)
  · exact .tail (.tail .refl ⟨_, trivial, gapBuffer_arrive (by decide) 0⟩)
      ⟨.tick 5000, trivial, rfl⟩
  · exact gapBuffer_arrive (by decide) 5001

end Locast.Client
