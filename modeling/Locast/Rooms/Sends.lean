import Locast.Rooms.DrawingLog

/-!
# What a section sends

Which payloads each write section can publish under the lock (`Section.sends`).
-/

namespace Locast.Rooms

open Locast.Lib Locast.Protocol

/-- The payloads a section publishes; an accepted manifest goes out after its section. -/
def Section.sends : Section → WirePayload → Bool
  | .permissionSet .., p => match p with
    | .capabilityUpdate _ => true
    | _ => false
  | .playbackCmd .., p => p.playback.isSome
  | .strokeBegin .., p | .strokePoint .., p | .strokeEnd .., p | .strokeUndo .., p
  | .strokeClear .., p => p.isDrawing
  | _, _ => false

variable {s : RoomState}

lemma Draws.isDrawing {may : Prop} {roomId : Uuid} {out : RoomDispatchOutcome × RoomState}
    (h : Draws may s roomId out) (split : SplitForWire) (store : Store) :
    ∀ i ∈ (drawn split s.id store out).sent, i.2.payload.isDrawing = true := by
  intro i hi
  obtain ⟨e, he, seq, -, hitem⟩ := mem_publishDrawingEventsLocked hi
  rcases h with ⟨-, hnil⟩ | ⟨-, -, -, hev⟩
  · rw [hnil] at he
    exact absurd he List.not_mem_nil
  · obtain ⟨hd, -⟩ := hev e he
    rw [publishEvent_drawing hd, List.mem_singleton] at hitem
    rw [hitem]
    exact RoomEvent.isDrawing_payload hd

/-- **A section sends only payloads of its kind.** -/
theorem Section.run_sends {env : SectionEnv} {store : Store} {sec : Section}
    {out : SectionOutcome sec.Reply} (h : sec.run env store s = some out) :
    ∀ i ∈ out.sent, sec.sends i.2.payload = true := by
  cases sec with
  | join =>
    obtain ⟨_, -, rfl⟩ := Option.map_eq_some_iff.1 h
    exact fun i hi => absurd hi List.not_mem_nil
  | leave =>
    simp only [Section.run] at h
    split at h <;> cases h <;> exact fun i hi => absurd hi List.not_mem_nil
  | permissionSet caller payload =>
    cases h
    intro i hi
    dsimp only at hi
    split at hi
    · obtain ⟨e, he, -, hitem⟩ := mem_publishEvents hi
      rw [List.mem_singleton.1 he] at hitem
      rcases (publishEvent_spec env.crates.splitPublished s.id 0 _).2
        with ⟨item, hp, hpay⟩ | ⟨hm, -⟩
      · rw [hp, List.mem_singleton] at hitem
        rw [hitem, hpay]
        rfl
      · obtain ⟨_, _, _, _, hm⟩ := hm
        cases hm
    · exact absurd hi List.not_mem_nil
  | playbackCmd u pubkey payload =>
    cases h
    intro i hi
    dsimp only at hi
    split at hi
    · obtain ⟨e, he, -, hitem⟩ := mem_publishEvents hi
      rw [List.mem_singleton.1 he] at hitem
      rcases (publishEvent_spec env.crates.splitPublished s.id 0 _).2
        with ⟨item, hp, hpay⟩ | ⟨hm, -⟩
      · rw [hp, List.mem_singleton] at hitem
        rw [hitem, hpay]
        rfl
      · obtain ⟨_, _, _, _, hm⟩ := hm
        cases hm
    · exact absurd hi List.not_mem_nil
  | strokeBegin envelope p u pubkey nowMs =>
    obtain ⟨out', ho, rfl⟩ := Option.map_eq_some_iff.1 h
    exact (strokeBeginLocked_draws ho).isDrawing _ _
  | strokePoint envelope p u =>
    obtain ⟨out', ho, rfl⟩ := Option.map_eq_some_iff.1 h
    exact (handleStrokePoint_draws ho).isDrawing _ _
  | strokeEnd envelope p u =>
    obtain ⟨out', ho, rfl⟩ := Option.map_eq_some_iff.1 h
    exact (handleStrokeEnd_draws ho).isDrawing _ _
  | strokeUndo envelope p u =>
    obtain ⟨out', ho, rfl⟩ := Option.map_eq_some_iff.1 h
    exact (handleStrokeUndo_draws ho).isDrawing _ _
  | strokeClear u =>
    cases h
    exact (handleStrokeClear_draws s u).isDrawing _ _
  | manifestPublish u pubkey manifest =>
    simp only [Section.run] at h
    split at h <;> cases h <;> exact fun i hi => absurd hi List.not_mem_nil
  | _ =>
    cases h
    exact fun i hi => absurd hi List.not_mem_nil

/-- A section closes no room on its channel. -/
lemma Section.sends_open {sec : Section} {p : WirePayload} (h : sec.sends p = true) :
    p.isClosed = false := by
  cases p with
  | roomClosed => cases sec <;> cases h
  | _ => rfl

end Locast.Rooms
