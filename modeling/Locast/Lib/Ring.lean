import Mathlib.Data.List.Basic
import Mathlib.Order.Nat

/-!
# A bounded broadcast ring

The channel of `tokio::sync::broadcast`: a sender never waits, the ring keeps the last `cap` items,
and a receiver that has fallen behind the oldest kept item is told so once and moved there.  A
receiver is its position, the number of items sent before the next one it will get.

`RingBuffer.Holds` is the abstraction: the ring after the items of `log` were sent.  `recv_spec`
says what a receiver gets in terms of the log.
-/

namespace Locast.Lib

structure RingBuffer (α : Type) where
  cap : ℕ
  /-- The kept items, oldest first. -/
  buf : List α
  sent : ℕ

/-- What a receiver gets. -/
inductive Received (α : Type) where
  | item (a : α)
  | lagged (missed : ℕ)
  | empty

namespace RingBuffer

variable {α : Type}

def send (r : RingBuffer α) (a : α) : RingBuffer α :=
  { r with buf := (r.buf ++ [a]).drop (r.buf.length + 1 - r.cap), sent := r.sent + 1 }

/-- The position of the oldest kept item. -/
def oldest (r : RingBuffer α) : ℕ := r.sent - r.buf.length

/-- What a receiver at `pos` gets, with its new position. -/
def recv (r : RingBuffer α) (pos : ℕ) : Received α × ℕ :=
  if pos < r.oldest then (.lagged (r.oldest - pos), r.oldest)
  else match r.buf[pos - r.oldest]? with
    | some a => (.item a, pos + 1)
    | none => (.empty, pos)

/-- The ring after the items of `log` were sent: it keeps the last `cap` of them. -/
structure Holds (r : RingBuffer α) (log : List α) : Prop where
  sent_eq : r.sent = log.length
  buf_eq : r.buf = log.drop (log.length - r.cap)

variable {r : RingBuffer α} {log : List α}

theorem Holds.send (h : r.Holds log) (a : α) : (r.send a).Holds (log ++ [a]) where
  sent_eq := by simp [RingBuffer.send, h.sent_eq]
  buf_eq := by
    have hdrop : log.length - r.cap ≤ log.length := Nat.sub_le _ _
    simp only [RingBuffer.send, h.buf_eq, List.length_drop, List.length_append,
      List.length_singleton]
    rw [← List.drop_append_of_le_length hdrop, List.drop_drop]
    congr 1
    omega

lemma Holds.oldest_eq (h : r.Holds log) : r.oldest = log.length - r.cap := by
  have := h.sent_eq
  rw [oldest, h.buf_eq, List.length_drop]
  omega

/-- **What a receiver gets**: it is moved forward, or gets the next item of the log, or there is
none. -/
theorem recv_spec (h : r.Holds log) {pos : ℕ} (hpos : pos ≤ log.length) :
    (∃ missed pos', r.recv pos = (.lagged missed, pos') ∧ pos ≤ pos' ∧ pos' ≤ log.length) ∨
    (∃ a, r.recv pos = (.item a, pos + 1) ∧ log.drop pos = a :: log.drop (pos + 1) ∧
      pos + 1 ≤ log.length) ∨
    (r.recv pos = (.empty, pos) ∧ pos = log.length) := by
  by_cases hlag : pos < r.oldest
  · left
    exact ⟨_, _, if_pos hlag, hlag.le, h.oldest_eq ▸ Nat.sub_le _ _⟩
  · right
    have hget : r.buf[pos - r.oldest]? = log[pos]? := by
      rw [h.oldest_eq] at hlag ⊢
      rw [h.buf_eq, List.getElem?_drop]
      congr 1
      omega
    rcases hpos.lt_or_eq with hlt | heq
    · left
      refine ⟨log[pos], ?_, List.drop_eq_getElem_cons hlt, hlt⟩
      rw [recv, if_neg hlag, hget, List.getElem?_eq_getElem hlt]
    · right
      refine ⟨?_, heq⟩
      rw [recv, if_neg hlag, hget, List.getElem?_eq_none heq.ge]

end RingBuffer

end Locast.Lib
