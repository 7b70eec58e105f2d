import Locast.Rooms.Publication
import Locast.Server.Reachable

/-!
# What reaches a channel

The items the steps of a run put on the channel of a room (`sentTo`).
-/

namespace Locast.Server

open Locast.Lib Locast.Protocol Locast.Rooms

/-! ### The items of a step -/

/-- The items a step puts on the channel of `R`; nothing reaches a room without a channel. -/
def Step.sent (R : Uuid) (d : Step) : List BroadcastItem :=
  ((d.after.tx.get R).getD []).drop ((d.before.tx.get R).getD []).length

/-- The items on the channel of `R`, in order. -/
def sentTo (R : Uuid) (h : List Step) : List BroadcastItem := h.flatMap (Step.sent R)

variable {R : Uuid}

@[simp] lemma sentTo_nil : sentTo R [] = [] := rfl

@[simp] lemma sentTo_append (h h' : List Step) : sentTo R (h ++ h') = sentTo R h ++ sentTo R h' :=
  List.flatMap_append

@[simp] lemma sentTo_singleton (d : Step) : sentTo R [d] = d.sent R := by simp [sentTo]

/-- A step that leaves the channel alone. -/
lemma Step.sent_of_eq {d : Step} (h : d.after.tx.get R = d.before.tx.get R) : d.sent R = [] := by
  rw [Step.sent, h, List.drop_length]

/-- A step that appends to the channel. -/
lemma Step.sent_of_append {d : Step} {items : List BroadcastItem}
    (h : d.after.tx.get R = (d.before.tx.get R).map (· ++ items)) :
    d.sent R = if (d.before.tx.get R).isSome then items else [] := by
  rw [Step.sent, h]
  cases d.before.tx.get R <;> simp

/-- A step after which there is nothing on the channel. -/
lemma Step.sent_of_empty {d : Step} (h : d.after.tx.get R = none ∨ d.after.tx.get R = some []) :
    d.sent R = [] := by
  rcases h with h | h <;> simp [Step.sent, h]

/-- What a published item puts on a channel. -/
lemma sent_publish (op : Op) (inp : Input) (before : ServerState) (id : Uuid)
    (item : BroadcastItem) :
    Step.sent R ⟨op, .publish id item, inp, (), before, before.publish id item⟩ =
      if id = R ∧ (before.tx.get R).isSome then [item] else [] := by
  have htx : (before.publish id item).tx.get R =
      (before.tx.get R).map (· ++ if id = R then [item] else []) := by
    simp only [ServerState.publish_tx]
  rw [Step.sent_of_append htx]
  by_cases hid : id = R <;> simp [hid]

/-- What a section puts on a channel. -/
lemma sent_section (op : Op) (inp : Input) (before : ServerState) (id : Uuid) (sec : Section)
    (out : SectionOutcome sec.Reply) :
    Step.sent R ⟨op, .section id sec, inp, out.reply, before, before.apply id out⟩ =
      if (before.tx.get R).isSome then ServerState.itemsTo R out.sent else [] :=
  Step.sent_of_append (by simp only [ServerState.apply_tx])

/-- The items of a publication go to its own room. -/
lemma itemsTo_manifest (split : SplitForWire) (id R : Uuid) (c : CachedManifest) :
    ServerState.itemsTo R (publishEvents split id [c.event id]) =
      if id = R then c.wireItems split R else [] := by
  rw [publishEvents_manifest, ServerState.itemsTo]
  by_cases hid : id = R <;> simp [hid, List.filter_map, Function.comp_def]

/-- What the end of a publication puts on a channel. -/
lemma sent_publishManifest (op : Op) (inp : Input) (before : ServerState) (split : SplitForWire)
    (id : Uuid) (c : CachedManifest) :
    Step.sent R ⟨op, .publishManifest id c, inp, (), before, before.publishManifest split id c⟩ =
      if id = R ∧ (before.tx.get R).isSome then c.wireItems split R else [] := by
  rw [Step.sent_of_append (ServerState.publishManifest_tx before id R c split), itemsTo_manifest]
  by_cases hid : id = R <;> simp [hid]

/-- A new channel is empty, and removing rooms puts nothing on one. -/
lemma sent_insertChannel (op : Op) (inp : Input) (before : ServerState) (id : Uuid) :
    Step.sent R ⟨op, .insertChannel id, inp, (), before, before.insertChannel id⟩ = [] := by
  by_cases hR : R = id
  · exact Step.sent_of_empty (.inr (by simp only [ServerState.insertChannel_tx, if_pos hR]))
  · exact Step.sent_of_eq (by simp only [ServerState.insertChannel_tx, if_neg hR])

lemma sent_remove (op : Op) (inp : Input) (before : ServerState) (map : RegistryMap) (id : Uuid) :
    Step.sent R ⟨op, .remove map id, inp, before.holds id map, before, before.remove map id⟩ =
      [] := by
  by_cases hR : map = .channel ∧ R = id
  · exact Step.sent_of_empty (.inl (by rw [ServerState.remove_tx, if_pos hR]))
  · exact Step.sent_of_eq (by simp only [ServerState.remove_tx, if_neg hR])

end Locast.Server
