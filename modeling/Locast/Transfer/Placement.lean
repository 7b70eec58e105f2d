import Locast.Transfer.BuiltFrames
import Locast.Transfer.RunInvariant

/-!
# What a run leaves on the disk

The staging file is what the parts of the chunks make, and it is moved into the library only when it
is as long as the plan says and has its digest.  Nothing else of a run touches either.
-/

namespace Locast.Transfer

open Locast.Lib Step

/-! ### The staging file -/

/-- What lies in the staging file, and what was moved into the library. -/
structure Work where
  staged : Option Bytes
  placed : Option Bytes
  deriving DecidableEq

namespace Work

def init : Work := ⟨none, none⟩

/-- What an effect does to them. -/
def next (w : Work) : (a : Act) → a.Resp → Work
  | .createStaging, (.ok () : Except AssembleError Unit) => { w with staged := some [] }
  | .readPart _, (.ok (_, bytes) : Except AssembleError (String × Bytes)) =>
    { w with staged := w.staged.map (· ++ bytes) }
  | .removeStaging, _ => { w with staged := none }
  | .completeDownload, (.ok () : Except AssembleError Unit) => ⟨none, w.staged⟩
  | _, _ => w

/-- What a trace leaves. -/
def after (tr : List ActRecord) : Work := tr.foldl (fun w x => w.next x.1 x.2) init

end Work

/-- The content is the one of the plan. -/
def Genuine (ps : RunParams) (content : Bytes) : Prop :=
  content.length = ps.plan.sizeBytes ∧ ps.sha256Hex content = ps.plan.sha256

/-- **Only the content of the plan goes into the library.** -/
def assembler (ps : RunParams) : Automaton Act Act.Resp Work where
  allows w a := a = .completeDownload → ∃ content, w.staged = some content ∧ Genuine ps content
  expects _ _ := True
  next := Work.next

variable {ps : RunParams} {α : Type} {w : Work}

lemma Work.after_append (ps : RunParams) (tr tr' : List ActRecord) :
    Work.after (tr ++ tr') = (assembler ps).after (Work.after tr) tr' := List.foldl_append

/-- A part of a run that does not assemble, and ends with `P`. -/
def Quiet (ps : RunParams) (P : α → Prop) (p : Prog Act Act.Resp α) : Prop :=
  p.Sat (.only (fun _ _ => True) (Act.Moves ps)) (fun a _ => P a) ()

lemma Quiet.sat {P : α → Prop} {p : Prog Act Act.Resp α} (h : Quiet ps P p) :
    p.Sat (assembler ps) (fun a w' => P a ∧ w' = w) w := by
  induction p with
  | ret a => exact ⟨h, rfl⟩
  | op e k ih =>
    obtain ⟨hmoves, hrest⟩ := h
    refine ⟨?_, fun r hr => ?_⟩
    · rintro rfl
      exact hmoves.elim
    · have hsame : w.next e r = w := by
        cases e <;> first | rfl | exact hmoves.elim
      have hk := ih r (hrest r hr)
      change (k r).Sat (assembler ps) _ (w.next e r)
      rw [hsame]
      exact hk

/-! ### The assembly -/

/-- How the assembly ends: the content is in the library, or nothing is. -/
def AssemblyEnds (ps : RunParams) (r : Except AssembleError Unit) (w : Work) : Prop :=
  match r with
  | .ok () => ∃ content, w.placed = some content ∧ Genuine ps content
  | .error _ => w.placed = none

lemma concatParts_sat {chunks : List PlannedChunk} {written : Bytes} :
    (concatParts chunks written).Sat (assembler ps) (fun r w => w.placed = none ∧
      ∀ all, r = .ok all → w.staged = some all) ⟨some written, none⟩ := by
  induction chunks generalizing written with
  | nil => exact ⟨rfl, fun all hall => by rw [← Except.ok.inj hall]⟩
  | cons chunk rest ih =>
    refine ⟨fun h => (by cases h), fun (r : Except AssembleError (String × Bytes)) _ => ?_⟩
    rcases r with e | ⟨path, bytes⟩
    · exact ⟨rfl, fun all hall => by cases hall⟩
    · dsimp only
      split
      · exact ⟨rfl, fun all hall => by cases hall⟩
      · exact ih

lemma verifyStaging_sat {written : Bytes} :
    (verifyStaging ps written).Sat (assembler ps) (AssemblyEnds ps) ⟨some written, none⟩ := by
  unfold verifyStaging
  split
  · rfl
  rename_i hsize
  split
  · exact ⟨fun h => (by cases h), fun _ _ => rfl⟩
  rename_i hsha
  refine ⟨fun h => (by cases h), fun (r : Except AssembleError Bytes) _ => ?_⟩
  cases r with
  | error e => rfl
  | ok bytes =>
    dsimp only
    split
    · rfl
    split
    · rfl
    have hgenuine : Genuine ps written := ⟨not_not.1 hsize, not_not.1 hsha⟩
    refine ⟨fun _ => ⟨written, rfl, hgenuine⟩, fun (r : Except AssembleError Unit) _ => ?_⟩
    cases r with
    | error e => rfl
    | ok u => exact ⟨written, rfl, hgenuine⟩

lemma assembleAndFinalize_sat (hw : w.placed = none) :
    (assembleAndFinalize ps).Sat (assembler ps) (AssemblyEnds ps) w := by
  obtain ⟨staged, placed⟩ := w
  obtain rfl : placed = none := hw
  refine ⟨fun h => (by cases h), fun (r : Except AssembleError Unit) _ => ?_⟩
  cases r with
  | error e => rfl
  | ok u =>
    refine Prog.Sat.bind concatParts_sat fun r w' ⟨hplaced, hstaged⟩ => ?_
    obtain ⟨staged', placed'⟩ := w'
    obtain rfl : placed' = none := hplaced
    cases r with
    | error e => rfl
    | ok written =>
      obtain rfl : staged' = some written := hstaged written rfl
      refine ⟨fun h => (by cases h), fun (r : Except AssembleError Unit) _ => ?_⟩
      cases r with
      | error e => rfl
      | ok u => exact verifyStaging_sat

/-! ### The end of a run -/

/-- The run goes on, or it ends without its download being complete. -/
def Incomplete : Except Ending α → Prop
  | .error e => e.outcome ≠ .ok .complete
  | .ok _ => True

lemma moveTo_quiet {target : DownloadState} {s : Receiver} :
    Quiet ps Incomplete (moveTo ps target s) := by
  refine Prog.Sat.bind (sends_liftStore _) fun r _ _ => ?_
  cases r with
  | error e => exact fun h => by cases h
  | ok u => exact ⟨trivial, fun _ _ => trivial⟩

/-- The run ends without its download being complete. -/
def NotComplete (r : Except Ending DownloadState) : Prop := r ≠ .ok .complete ∧ Incomplete r

lemma endFailed_quiet {reason : String} {s : Receiver} {k : Step DownloadState}
    (hk : Quiet ps NotComplete k) : Quiet ps NotComplete (endFailed ps reason s k) := by
  have hclose (l : List SourceHandle) : Quiet ps NotComplete (closeAll k l) := by
    induction l with
    | nil => exact hk
    | cons h rest ih => exact ⟨trivial, fun _ _ => ih⟩
  refine Prog.Sat.bind (sends_liftStore _) fun r _ _ => ?_
  cases r with
  | error e => exact ⟨fun h => (by cases h), fun h => by cases h⟩
  | ok u => exact ⟨trivial, fun _ _ => hclose _⟩

lemma afterAssembly_quiet {s : Receiver} {e : AssembleError} :
    Quiet ps NotComplete (afterAssembly ps s (.error e)) := by
  have hfail (e : MultiSourceError) : Quiet ps NotComplete (fail e s : Step DownloadState) :=
    ⟨fun h => (by cases h), fun h => by cases h⟩
  cases e with
  | blake3Mismatch =>
    refine Prog.Sat.bind (sends_liftStore _) fun r _ _ => ?_
    cases r with
    | error e => exact hfail _
    | ok u => exact endFailed_quiet ⟨fun h => (by cases h), trivial⟩
  | _ => exact Prog.Sat.bind (sends_liftStore _) fun r _ _ => endFailed_quiet (hfail _)

/-- What the library has got when the run is over. -/
def Delivered (ps : RunParams) (complete : Prop) (w : Work) : Prop :=
  (∃ content, w.placed = some content ∧ Genuine ps content) ∨ ¬complete ∧ w.placed = none

lemma finish_sat {s : Receiver} (hw : w.placed = none) :
    (finish ps s).Sat (assembler ps)
      (fun r => Delivered ps (r = .ok .complete ∨ ¬Incomplete r)) w := by
  rw [finish_eq]
  refine Prog.Sat.bind moveTo_quiet.sat fun r w' ⟨hr, hw'⟩ => ?_
  subst hw'
  cases r with
  | error e => exact .inr ⟨fun h => h.elim (fun h => by cases h) fun h => h hr, hw⟩
  | ok t =>
    refine Prog.Sat.bind (assembleAndFinalize_sat hw) fun r w' hr => ?_
    cases r with
    | error e =>
      refine afterAssembly_quiet.sat.mono fun r w'' ⟨hnot, hsame⟩ => .inr ⟨?_, hsame ▸ hr⟩
      exact fun h => h.elim hnot.1 fun h => h hnot.2
    | ok u =>
      have hquiet : Quiet ps (fun _ => True) (afterAssembly ps t (.ok u)) := sends_afterAssembly t _
      exact hquiet.sat.mono fun r w'' ⟨_, hsame⟩ => .inl (hsame ▸ hr)

lemma after_afterRun {w : Work} {out : Option Ending} {e : Ending} {tr : List ActRecord}
    (h : (afterRun ps out).Does tr (.ret (some e))) :
    out = some e ∧ (assembler ps).after w tr = w := by
  have hquiet : Quiet ps (fun _ => True) (afterRun ps out) := sends_afterRun out
  refine ⟨?_, (hquiet.sat.does_ret h fun _ _ => trivial).2⟩
  cases out with
  | none => cases h
  | some ending =>
    obtain ⟨_, _, _, -, -, h⟩ := Prog.Does.of_bind h
    obtain ⟨_, _, _, -, -, h⟩ := Prog.Does.of_bind h
    cases h
    rfl

/-- Before the assembly no download is complete, since nothing of it was read back. -/
lemma incomplete_of_loaded {s : Receiver} {fuel : ℕ} {tr : List ActRecord} {e : Ending}
    (hlayout : ps.plan.Layout) (hs : s.Starts)
    (h : ((prepare ps s).andThen (loop ps fuel)).Does tr (.ret (.error e))) :
    e.outcome ≠ .ok .complete := fun hok => by
  have hspec : ((prepare ps s).andThen (loop ps fuel)).Meets ps
      (fun out done => ∀ t, out = some t → ∃ had, Filled ps had done t) [] :=
    loaded_spec hlayout fuel hs
  have hended : Ended ps tr e := (hspec.does h fun _ _ => trivial).1
  obtain ⟨whole, hmem, -⟩ := (hended.complete hok).assembled.reread
  have honly : Only (Act.Moves ps) ((prepare ps s).andThen (loop ps fuel)) :=
    (sends_prepare s).andThen (sends_loop_receiver fuel)
  exact (honly.does_only h (fun _ _ => trivial) _ hmem : False)

/-- **What a run leaves in the library**: the content of its plan, or nothing; and the content if
the download is complete. -/
theorem delivered_of_run {peers : List (String × ℤ)} {s : Receiver} {fuel : ℕ} {tr : List ActRecord}
    {e : Ending} (hlayout : ps.plan.Layout) (hnew : Receiver.new (freshSources peers) = .ok s)
    (hrun : (runMultiSource ps fuel s).Does tr (.ret (some e))) :
    Delivered ps (e.outcome = .ok .complete) (Work.after tr) := by
  rw [runMultiSource_eq] at hrun
  obtain ⟨out, tr₁, tr₂, rfl, hinner, hafter⟩ := hrun.of_bind
  obtain ⟨rfl, hsame⟩ := after_afterRun (w := Work.after tr₁) hafter
  rw [Work.after_append ps, hsame]
  obtain ⟨r, tr₁, tr₃, rfl, hloaded, hend⟩ := Prog.Does.of_bind hinner
  have hquiet : Quiet ps (fun _ => True) ((prepare ps s).andThen (loop ps fuel)) :=
    (sends_prepare s).andThen (sends_loop_receiver fuel)
  have hstill : Work.after tr₁ = Work.init := (hquiet.sat.does_ret hloaded fun _ _ => trivial).2
  rw [Work.after_append ps, hstill]
  cases r with
  | error ending =>
    cases hend
    exact .inr ⟨incomplete_of_loaded hlayout (starts_of_new hnew) hloaded, rfl⟩
  | ok out =>
    cases out with
    | none => cases hend
    | some t =>
      obtain ⟨r, tr₃, tr₄, rfl, hfinish, hend⟩ := Prog.Does.of_bind hend
      have hdel := (finish_sat (w := Work.init) rfl).does_ret hfinish fun _ _ => trivial
      cases r with
      | error ending =>
        cases hend
        rw [List.append_nil]
        exact hdel.imp id fun ⟨hne, hnone⟩ => ⟨fun h => hne (.inr fun hinc => hinc h), hnone⟩
      | ok state =>
        cases hend
        rw [List.append_nil]
        exact hdel.imp id fun ⟨hne, hnone⟩ => ⟨fun h => hne (.inl (congrArg Except.ok
          (Except.ok.inj h))), hnone⟩

end Locast.Transfer
