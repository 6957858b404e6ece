import P2PRdt.Lib.LatestByKey
import P2PRdt.Lib.Reach
import Mathlib.Logic.Function.Basic

/-!
# Checkpoints that are written in the background

`AsyncCheckpointIO` and its `ThreadsafeCheckpointer`, outside of
`torch.distributed`. The main thread serializes a checkpoint, records its path and
goes on; a single background thread writes the files one after the other, and
nobody reads whether that went well. The first save sets a checkpointer up and the
teardown waits for its writes and takes over its list of paths.

A path is recorded before it is written, and the list that a teardown takes over
replaces the one of the cycle before it.
-/

namespace P2PRdt.Policy

open Lib

variable {Path β : Type}

/-! ## The checkpointer -/

/-- What becomes of a write: the file is not opened, or only its first bytes get
to the disk. -/
inductive WriteOutcome where
  | written
  | notOpened
  | interrupted (n : ℕ)
deriving DecidableEq, Repr

/-- A call of `save_checkpoint`, with its serialized checkpoint and what the
background thread will make of it. -/
structure Save (Path β : Type) where
  path : Path
  bytes : List β
  outcome : WriteOutcome

abbrev Disk (Path β : Type) : Type := Path → Option (List β)

/-- `_finalize_checkpoint`. Opening the file empties it. -/
def finalizeCheckpoint [DecidableEq Path] (disk : Disk Path β) (s : Save Path β) : Disk Path β :=
  match s.outcome with
  | .written => Function.update disk s.path (some s.bytes)
  | .notOpened => disk
  | .interrupted n => Function.update disk s.path (some (s.bytes.take n))

/-- `submitted` are the writes that the executor has not done yet. -/
structure ThreadsafeCheckpointer (Path β : Type) where
  checkpointPaths : List Path := []
  submitted : List (Save Path β) := []

/-- `earlier` and `current` are histories: the saves of the cycles before the last
one and those of the last one. -/
structure AsyncCheckpointIO (Path β : Type) where
  checkpointer : Option (ThreadsafeCheckpointer Path β) := none
  checkpointPaths : List Path := []
  disk : Disk Path β
  earlier : List (Save Path β) := []
  current : List (Save Path β) := []

namespace AsyncCheckpointIO

/-- `_ensure_setup`. -/
def ensureSetup (q : AsyncCheckpointIO Path β) : AsyncCheckpointIO Path β :=
  match q.checkpointer with
  | none =>
      { q with checkpointer := some {}, earlier := q.earlier ++ q.current, current := [] }
  | some _ => q

/-- `save_checkpoint` on the main thread, once the checkpoint is serialized. -/
def saveCheckpoint (q : AsyncCheckpointIO Path β) (s : Save Path β) : AsyncCheckpointIO Path β :=
  let q := q.ensureSetup
  { q with
    checkpointer := q.checkpointer.map fun c =>
      { checkpointPaths := c.checkpointPaths ++ [s.path], submitted := c.submitted ++ [s] }
    current := q.current ++ [s] }

def listCheckpoints (q : AsyncCheckpointIO Path β) : List Path :=
  match q.checkpointer with
  | some c => c.checkpointPaths
  | none => q.checkpointPaths

def getFinalCheckpoint (q : AsyncCheckpointIO Path β) : Option Path := q.listCheckpoints.getLast?

end AsyncCheckpointIO

variable [DecidableEq Path]

inductive CheckpointStep : AsyncCheckpointIO Path β → AsyncCheckpointIO Path β → Prop
  | save {q : AsyncCheckpointIO Path β} (s : Save Path β) : CheckpointStep q (q.saveCheckpoint s)
  -- `torch.save` raises on the main thread
  | saveRaises {q : AsyncCheckpointIO Path β} : CheckpointStep q q.ensureSetup
  | write {q : AsyncCheckpointIO Path β} {c : ThreadsafeCheckpointer Path β} {s : Save Path β}
      {rest : List (Save Path β)} : q.checkpointer = some c → c.submitted = s :: rest →
      CheckpointStep q
        { q with
          checkpointer := some { c with submitted := rest }
          disk := finalizeCheckpoint q.disk s }
  -- the executor has been waited for
  | teardown {q : AsyncCheckpointIO Path β} {c : ThreadsafeCheckpointer Path β} :
      q.checkpointer = some c → c.submitted = [] →
      CheckpointStep q { q with checkpointer := none, checkpointPaths := c.checkpointPaths }
  | teardownAgain {q : AsyncCheckpointIO Path β} : q.checkpointer = none → CheckpointStep q q

/-- All runs from any disk. -/
def CheckpointReachable : AsyncCheckpointIO Path β → Prop :=
  Reach (fun q => ∃ disk, q = { disk := disk }) CheckpointStep

/-! ## The property and where it holds -/

namespace AsyncCheckpointIO

variable (q : AsyncCheckpointIO Path β)

/-- The saves of all cycles. -/
def saves : List (Save Path β) := q.earlier ++ q.current

/-- The latest save of each path. -/
def latestSaves : List (Save Path β) := latestBy Save.path q.saves

/-- The paths whose latest save was written, in the order of these saves. -/
def writtenPaths : List Path :=
  (q.latestSaves.filter fun s => s.outcome = .written).map Save.path

/-- What is reported after a teardown is what was written. -/
structure ReportsWritten : Prop where
  written : ∀ path ∈ q.listCheckpoints, ∃ s ∈ q.latestSaves,
    s.path = path ∧ s.outcome = .written ∧ q.disk path = some s.bytes
  complete : q.writtenPaths.Sublist q.listCheckpoints
  final : q.getFinalCheckpoint = q.writtenPaths.getLast?

/-- The latest save of a path was written if it was made in the last cycle, and
only then. -/
def WrittenInLastCycle : Prop :=
  ∀ s ∈ q.latestSaves, s.outcome = .written ↔ s.path ∈ q.current.map Save.path

instance : Decidable q.WrittenInLastCycle :=
  inferInstanceAs (Decidable (∀ s ∈ q.latestSaves,
    s.outcome = .written ↔ s.path ∈ q.current.map Save.path))

end AsyncCheckpointIO

/-! ## What is recorded -/

namespace AsyncCheckpointIO

variable {q : AsyncCheckpointIO Path β}

/-- The writes that are still to be done. -/
def pending (q : AsyncCheckpointIO Path β) : List (Save Path β) :=
  match q.checkpointer with
  | some c => c.submitted
  | none => []

/-- The list holds the paths of the last cycle, and the disk what the writes done
so far have left. -/
structure Recorded (q : AsyncCheckpointIO Path β) : Prop where
  list : q.listCheckpoints = q.current.map Save.path
  disk : ∃ done, q.saves = done ++ q.pending ∧
    ∀ s ∈ latestBy Save.path done, s.outcome = .written → q.disk s.path = some s.bytes

/-- One more write is done. -/
theorem disk_finalizeCheckpoint {disk : Disk Path β} {done : List (Save Path β)}
    (hdisk : ∀ s ∈ latestBy Save.path done, s.outcome = .written → disk s.path = some s.bytes)
    (s : Save Path β) :
    ∀ s' ∈ latestBy Save.path (done ++ [s]), s'.outcome = .written →
      finalizeCheckpoint disk s s'.path = some s'.bytes := by
  intro s' hs' hwritten
  rw [latestBy_concat, List.mem_append, List.mem_filter, List.mem_singleton] at hs'
  rcases hs' with ⟨hmem, hne⟩ | rfl
  · have hne : s'.path ≠ s.path := of_decide_eq_true hne
    rw [← hdisk s' hmem hwritten]
    unfold finalizeCheckpoint
    cases s.outcome with
    | written => exact Function.update_of_ne hne _ _
    | notOpened => rfl
    | interrupted n => exact Function.update_of_ne hne _ _
  · simp only [finalizeCheckpoint, hwritten, Function.update_self]

omit [DecidableEq Path] in
theorem ensureSetup_saves (q : AsyncCheckpointIO Path β) : q.ensureSetup.saves = q.saves := by
  unfold ensureSetup
  cases hc : q.checkpointer with
  | none => exact List.append_nil _
  | some c => rfl

theorem recorded_ensureSetup (h : Recorded q) : Recorded q.ensureSetup := by
  rcases h.disk with ⟨done, hsaves, hdisk⟩
  cases hc : q.checkpointer with
  | none =>
      refine ⟨?_, done, ?_, ?_⟩
      · simp [ensureSetup, listCheckpoints, hc]
      · rw [ensureSetup_saves, hsaves]
        simp [ensureSetup, pending, hc]
      · simpa [ensureSetup, hc] using hdisk
  | some c =>
      have hsame : q.ensureSetup = q := by
        rw [ensureSetup, hc]
      rw [hsame]
      exact h

omit [DecidableEq Path] in
theorem exists_checkpointer (q : AsyncCheckpointIO Path β) :
    ∃ c, q.ensureSetup.checkpointer = some c := by
  unfold ensureSetup
  cases hc : q.checkpointer with
  | none => exact ⟨_, rfl⟩
  | some c => exact ⟨c, hc⟩

theorem recorded_saveCheckpoint (h : Recorded q) (s : Save Path β) :
    Recorded (q.saveCheckpoint s) := by
  obtain ⟨c, hc⟩ := exists_checkpointer q
  obtain ⟨hlist, done, hsaves, hdisk⟩ := recorded_ensureSetup h
  have hpaths : c.checkpointPaths = q.ensureSetup.current.map Save.path := by
    simpa only [listCheckpoints, hc] using hlist
  refine ⟨?_, done, ?_, hdisk⟩
  · simp [saveCheckpoint, listCheckpoints, hc, hpaths]
  · rw [saves, pending, hc] at hsaves
    simp only [saveCheckpoint, saves, pending, hc, Option.map_some]
    rw [← List.append_assoc, hsaves, List.append_assoc]

theorem Recorded.step {q' : AsyncCheckpointIO Path β} (h : Recorded q) (hs : CheckpointStep q q') :
    Recorded q' := by
  cases hs with
  | save s => exact recorded_saveCheckpoint h s
  | saveRaises => exact recorded_ensureSetup h
  | write hc hsub =>
      rename_i c s rest
      rcases h with ⟨hlist, done, hsaves, hdisk⟩
      refine ⟨?_, done ++ [s], ?_, disk_finalizeCheckpoint hdisk s⟩
      · simpa only [listCheckpoints, hc] using hlist
      · rw [pending, hc] at hsaves
        simp only [hsub] at hsaves
        simp only [pending, List.append_assoc, List.singleton_append]
        exact hsaves
  | teardown hc hsub =>
      rcases h with ⟨hlist, done, hsaves, hdisk⟩
      refine ⟨?_, done, ?_, hdisk⟩
      · simpa only [listCheckpoints, hc] using hlist
      · rw [pending, hc] at hsaves
        simp only [hsub] at hsaves
        exact hsaves
  | teardownAgain hc => exact h

theorem recorded_of_reachable (h : CheckpointReachable q) : Recorded q := by
  refine Reach.invariant (I := Recorded) ?_ ?_ h
  · rintro _ ⟨disk, rfl⟩
    exact ⟨rfl, [], rfl, fun s hs => absurd hs List.not_mem_nil⟩
  · intro q q' hq hs
    exact hq.step hs

/-! ## When the reports are right -/

/-- Every save has a latest one of its path. -/
theorem exists_latestSave {s : Save Path β} (hs : s ∈ q.saves) :
    ∃ s' ∈ q.latestSaves, s'.path = s.path :=
  exists_latestBy hs

theorem latestSaves_eq : q.latestSaves =
    (latestBy Save.path q.earlier).filter (fun s => s.path ∉ q.current.map Save.path) ++
      latestBy Save.path q.current :=
  latestBy_append _ _

/-- Under the condition the written paths are those of the last cycle. -/
theorem WrittenInLastCycle.writtenPaths_eq (h : q.WrittenInLastCycle) :
    q.writtenPaths = (latestBy Save.path q.current).map Save.path := by
  have hearlier : ((latestBy Save.path q.earlier).filter
      (fun s => s.path ∉ q.current.map Save.path)).filter (fun s => s.outcome = .written) = [] := by
    rw [List.filter_eq_nil_iff]
    intro s hs hwritten
    have hlate : s.path ∉ q.current.map Save.path := of_decide_eq_true (List.mem_filter.mp hs).2
    have hmem : s ∈ q.latestSaves := by
      rw [latestSaves_eq]
      exact List.mem_append_left _ hs
    exact hlate ((h s hmem).mp (of_decide_eq_true hwritten))
  have hcurrent : (latestBy Save.path q.current).filter (fun s => s.outcome = .written) =
      latestBy Save.path q.current := by
    rw [List.filter_eq_self]
    intro s hs
    have hmem : s ∈ q.latestSaves := by
      rw [latestSaves_eq]
      exact List.mem_append_right _ hs
    exact decide_eq_true ((h s hmem).mpr (List.mem_map_of_mem (mem_of_mem_latestBy hs)))
  rw [writtenPaths, latestSaves_eq, List.filter_append, hearlier,
    List.nil_append, hcurrent]

theorem Recorded.reportsWritten (h : Recorded q) (hdown : q.checkpointer = none)
    (hwritten : q.WrittenInLastCycle) : q.ReportsWritten := by
  rcases h with ⟨hlist, done, hsaves, hdisk⟩
  have hdone : q.saves = done := by
    rw [hsaves, pending, hdown]
    exact List.append_nil done
  have hpaths := hwritten.writtenPaths_eq
  constructor
  · intro path hpath
    rw [hlist] at hpath
    obtain ⟨s, hs, rfl⟩ := List.mem_map.mp hpath
    obtain ⟨s', hs', hkey⟩ := exists_latestSave (q := q) (List.mem_append_right _ hs)
    have hout := (hwritten s' hs').mpr (hkey ▸ hpath)
    refine ⟨s', hs', hkey, hout, ?_⟩
    rw [latestSaves, hdone] at hs'
    rw [← hkey]
    exact hdisk s' hs' hout
  · rw [hpaths, hlist]
    exact (latestBy_sublist _).map Save.path
  · rw [getFinalCheckpoint, hlist, hpaths, List.getLast?_map, List.getLast?_map,
      getLast?_latestBy]

theorem ReportsWritten.writtenInLastCycle (h : q.ReportsWritten)
    (hlist : q.listCheckpoints = q.current.map Save.path) : q.WrittenInLastCycle := by
  intro s hs
  rw [← hlist]
  constructor
  · intro hout
    apply h.complete.mem
    exact List.mem_map_of_mem (List.mem_filter.mpr ⟨hs, decide_eq_true hout⟩)
  · intro hpath
    obtain ⟨s', hs', hkey, hout, -⟩ := h.written _ hpath
    rwa [eq_of_mem_latestBy hs hs' hkey.symm]

end AsyncCheckpointIO

/-- **After a teardown only written checkpoints are reported, and all of them**,
exactly when the latest save of each path was written if it was made in the last
cycle and was not written if it was made before. -/
theorem AsyncCheckpointIO.reportsWritten_iff {q : AsyncCheckpointIO Path β}
    (h : CheckpointReachable q) (hdown : q.checkpointer = none) :
    q.ReportsWritten ↔ q.WrittenInLastCycle := by
  have hrecorded := recorded_of_reachable h
  constructor
  · intro hreports
    exact hreports.writtenInLastCycle hrecorded.list
  · intro hwritten
    exact hrecorded.reportsWritten hdown hwritten

/-- The path that a first cycle writes is written twice more by a second one, and the
one that it breaks off is not saved again. -/
theorem AsyncCheckpointIO.reportsWritten_iff_twoCycles :
    ∃ q : AsyncCheckpointIO ℕ ℕ, CheckpointReachable q ∧ q.checkpointer = none ∧
      q.listCheckpoints = [0, 2, 0] ∧ q.disk 0 = some [11] ∧ q.disk 1 = some [8] ∧
      q.ReportsWritten := by
  have hstart : CheckpointReachable ({ disk := fun _ => none } : AsyncCheckpointIO ℕ ℕ) :=
    .start ⟨_, rfl⟩
  have hsaved := (hstart.next (.save ⟨0, [7], .written⟩)).next
    (.save ⟨1, [8, 9], .interrupted 1⟩)
  have hwritten := (hsaved.next (.write rfl rfl)).next (.write rfl rfl)
  have hfirst := hwritten.next (.teardown rfl rfl)
  have hagain := (hfirst.next (.save ⟨0, [10], .written⟩)).next (.write rfl rfl)
  have hqueued := (hagain.next (.save ⟨2, [5], .written⟩)).next (.save ⟨0, [11], .written⟩)
  have hdone := (hqueued.next (.write rfl rfl)).next (.write rfl rfl)
  have hsecond := hdone.next (.teardown rfl rfl)
  exact ⟨_, hsecond, rfl, rfl, rfl, rfl, (reportsWritten_iff hsecond rfl).mpr (by decide)⟩

/-- A save whose file cannot be opened is reported, and a written path of an
earlier cycle is not. -/
theorem AsyncCheckpointIO.not_reportsWritten :
    (∃ q : AsyncCheckpointIO ℕ ℕ, CheckpointReachable q ∧ q.checkpointer = none ∧
      q.listCheckpoints = [0] ∧ q.getFinalCheckpoint = some 0 ∧ q.disk 0 = none ∧
      ¬ q.ReportsWritten) ∧
    ∃ q : AsyncCheckpointIO ℕ ℕ, CheckpointReachable q ∧ q.checkpointer = none ∧
      q.listCheckpoints = [1] ∧ q.disk 0 = some [7] ∧ ¬ q.ReportsWritten := by
  have h0 : CheckpointReachable ({ disk := fun _ => none } : AsyncCheckpointIO ℕ ℕ) :=
    .start ⟨_, rfl⟩
  constructor
  · have h1 := Reach.next h0 (.save ⟨0, [7], .notOpened⟩)
    have h2 := Reach.next h1 (.write rfl rfl)
    have h3 := Reach.next h2 (.teardown rfl rfl)
    refine ⟨_, h3, rfl, rfl, rfl, rfl, fun hreports => ?_⟩
    have hnone := hreports.final
    cases hnone
  · have h1 := Reach.next h0 (.save ⟨0, [7], .written⟩)
    have h2 := Reach.next h1 (.write rfl rfl)
    have h3 := Reach.next h2 (.teardown rfl rfl)
    have h4 := Reach.next h3 (.save ⟨1, [8], .written⟩)
    have h5 := Reach.next h4 (.write rfl rfl)
    have h6 := Reach.next h5 (.teardown rfl rfl)
    refine ⟨_, h6, rfl, rfl, rfl, fun hreports => ?_⟩
    have hmem := hreports.complete.mem (a := 0) (by decide)
    exact absurd hmem (by decide)

end P2PRdt.Policy
