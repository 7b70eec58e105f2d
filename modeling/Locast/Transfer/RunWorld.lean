import Locast.Lib.Trace
import Locast.Transfer.MultiSourceRun

/-!
# The world of a run

What answers the effects of `run_multi_source`: the database, on which other calls of the store go
on between any two effects, and an environment that picks everything else.
-/

namespace Locast.Transfer

open Locast.Lib

/-- The rows that `completed_chunk_indices` selects, in order. -/
def Db.completedIndices (db : Db) (id : String) : List ℕ :=
  match db.get id with
  | none => []
  | some d => ((d.chunks.entries.filter fun e => e.2.counted).map Sigma.fst).mergeSort

/-- The environment's part of an effect: the moves of the other calls before it, and its outcome. -/
structure RunInput where
  others : List (Move Op Effect.Input) := []
  store : Effect.Input := ⟨none, 0⟩
  now : ℕ := 0
  out : SendOutcome := .sent
  granted : Bool := true
  order : List (ℕ × String) := []
  inbound : Inbound := .tick
  written : Except String Unit := .ok ()
  staged : Except AssembleError Unit := .ok ()
  part : Except AssembleError (String × Bytes) := .ok ("", [])
  whole : Except AssembleError Bytes := .ok []

/-- Nothing fails and nobody says anything. -/
def RunInput.calm : RunInput where
  others := []

namespace Act

/-- The outcome of an effect; a full window grants nothing. -/
def respond (id : String) (inp : RunInput) : (a : Act) → Calls → Option (a.Resp × Calls)
  | store e, w => (e.handle inp.store w.state).map fun out => (out.1, ⟨out.2, w.tasks⟩)
  | completedChunkIndices, w =>
    match inp.store.fails with
    | some msg => some ((.error msg : Except String (List ℕ)), w)
    | none => some ((.ok (w.state.completedIndices id) : Except String (List ℕ)), w)
  | recordState _ _, w => some ((), w)
  | now, w => some (inp.now, w)
  | send _ _ _, w => some (inp.out, w)
  | tryAcquireSlot _ _ slots, w =>
    if inp.granted = true ∧ windowSize ≤ slots.card then none else some (inp.granted, w)
  | stuckOrder stuck, w =>
    if h : inp.order.Perm stuck then
      some ((⟨inp.order, h⟩ : { order : List (ℕ × String) // order.Perm stuck }), w)
    else none
  | head _, w => some ((), w)
  | await _, w => some (inp.inbound, w)
  | writePart _ _, w => some (inp.written, w)
  | createStaging, w => some (inp.staged, w)
  | readPart _, w => some (inp.part, w)
  | syncStaging, w => some (inp.staged, w)
  | removeStaging, w => some ((), w)
  | rereadStaging, w => some (inp.whole, w)
  | completeDownload, w => some (inp.staged, w)
  | cleanupIncomplete, w => some ((), w)
  | close _, w => some ((), w)

def handle (id : String) (a : Act) (inp : RunInput) (w : Calls) : Option (a.Resp × Calls) :=
  (storeSystem.play [] w inp.others).bind fun out => a.respond id inp out.2

end Act

/-- One run over the database. -/
def runSystem (ps : RunParams) (fuel : ℕ) (s : Receiver) :
    System Act Act.Resp Unit (Option Ending) Calls RunInput where
  program _ := runMultiSource ps fuel s
  handle := Act.handle ps.plan.downloadId

/-- What the orchestrator did and was answered. -/
abbrev ActRecord : Type := (a : Act) × a.Resp

/-- A run has ended, every record of it passes `check`, and its end `ok`. -/
def passes (check : ActRecord → Bool) (ok : Ending → Bool)
    (out : List (Did Act.Resp Unit Calls RunInput) × Option Ending × Calls) : Bool :=
  out.1.all (fun d => check (System.Did.record d)) && out.2.1.any ok

/-- A trace of a run can be computed. -/
theorem exists_does {ps : RunParams} {fuel : ℕ} {s : Receiver} (w : Calls) (inps : List RunInput)
    (check : ActRecord → Bool) (ok : Ending → Bool)
    (hp : ((runSystem ps fuel s).perform () (runMultiSource ps fuel s) w inps).any
      (passes check ok) = true) :
    ∃ tr e, (runMultiSource ps fuel s).Does tr (.ret (some e)) ∧ (∀ x ∈ tr, check x = true) ∧
      ok e = true := by
  obtain ⟨h, e, w', hsolo, hok⟩ := System.exists_solo_of_perform inps _ hp
  simp only [passes, Bool.and_eq_true, List.all_eq_true, Option.any_eq_true] at hok
  obtain ⟨hall, e, rfl, hok⟩ := hok
  refine ⟨_, e, hsolo.does, fun x hx => ?_, hok⟩
  obtain ⟨d, hd, rfl⟩ := List.mem_map.1 hx
  exact hall d hd

end Locast.Transfer
