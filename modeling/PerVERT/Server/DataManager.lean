import PerVERT.Backend.Construct
import PerVERT.Server.TraceAccess

/-!
# `DataManager::update`

An update deletes the trace of an executable and builds a new one from the files at the path it is
given.

* `DataManager.update` — as the code runs it, on its own; `update_run` — these are the steps of
  `Server/TraceAccess.lean` that an update takes.
* **`update_serves_new`** — whenever an update returns, the trace served is the one it built and the
  old one is deleted, whatever it reports.
* `UpdateAtomic` — what is wanted of an update; **`update_atomic_iff`** — it is reached when both
  files can be opened.
-/

namespace PerVERT

/-- `DataManager`, and the traces that were built for it.  As in `AccessState`, a trace is known by
its position in the list of all that were built, and one that is deleted is `none` there. -/
structure DataManager where
  exec : Text
  /-- `_trace`. -/
  trace : Option ℕ
  heap : List (Option Trace)

/-- What is found through `getTrace()`. -/
def DataManager.served (dm : DataManager) : Read := readThrough dm.heap dm.trace

/-- `if (_trace != 0) delete _trace;`. -/
def DataManager.deleteTrace (dm : DataManager) : DataManager :=
  match dm.trace with
  | none => dm
  | some i => { dm with heap := dm.heap.set i none }

/-- `_trace = new Trace(...)`, when it has been built. -/
def DataManager.storeTrace (dm : DataManager) (t : Trace) : DataManager :=
  { dm with trace := some dm.heap.length, heap := dm.heap ++ [some t] }

/-- What the files at a path hold, if they can be opened. -/
abbrev Files := Text → Option Text

/-- The two files of an update. -/
def linefile (files : Files) (logs : Text) : Option Text := files (logs ++ ".line".toList)

def tracefile (files : Files) (logs : Text) : Option Text := files (logs ++ ".trace".toList)

/-- The trace that an update builds.  The line size is the default of the constructor. -/
def buildTrace (fuel : ℕ) (junk : Junk) (location : Location) (files : Files) (logs : Text) :
    Checked Trace :=
  Trace.construct fuel junk location (linefile files logs) (tracefile files logs) 1024

/-- `DataManager::update`, between `lock` and `unlock`, and what it returns. -/
def DataManager.update (fuel : ℕ) (junk : Junk) (location : Location) (files : Files)
    (dm : DataManager) (logs : Text) : Checked (Bool × DataManager) := do
  let dm := dm.deleteTrace
  let t ← buildTrace fuel junk location files logs
  let dm := dm.storeTrace t
  pure (t.okay, dm)

section Update

variable {fuel : ℕ} {junk : Junk} {location : Location} {files : Files} {dm dm' : DataManager}
  {logs : Text} {b : Bool} {t : Trace}

@[simp] lemma DataManager.served_storeTrace : (dm.storeTrace t).served = .of t := by
  simp [DataManager.served, DataManager.storeTrace, readThrough]

/-- Deleting, or there was nothing to delete. -/
lemma DataManager.deleted_deleteTrace {i : ℕ} (hi : dm.trace = some i) (hlt : i < dm.heap.length) :
    dm.deleteTrace.heap[i]? = some none := by
  simp [DataManager.deleteTrace, hi, hlt]

lemma update_eq_ok : dm.update fuel junk location files logs = .ok (b, dm') ↔
    ∃ t, buildTrace fuel junk location files logs = .ok t ∧ b = t.okay ∧
      dm' = dm.deleteTrace.storeTrace t := by
  rw [DataManager.update, checked_bind_eq_ok]
  refine exists_congr fun t => and_congr_right fun _ => ?_
  constructor
  · intro h
    cases h
    exact ⟨rfl, rfl⟩
  · rintro ⟨rfl, rfl⟩
    rfl

/-- **Whenever an update returns**, true or false, the trace served is the one it built, and the one
that was served before is deleted. -/
theorem update_serves_new (h : dm.update fuel junk location files logs = .ok (b, dm')) :
    ∃ t, buildTrace fuel junk location files logs = .ok t ∧ b = t.okay ∧ dm'.served = .of t ∧
      ∀ i, dm.trace = some i → i < dm.heap.length → dm'.heap[i]? = some none := by
  obtain ⟨t, hbuild, rfl, rfl⟩ := update_eq_ok.mp h
  refine ⟨t, hbuild, rfl, DataManager.served_storeTrace, fun i hi hlt => ?_⟩
  have hdeleted := DataManager.deleted_deleteTrace hi hlt
  rw [DataManager.storeTrace]
  show (dm.deleteTrace.heap ++ [some t])[i]? = some none
  rw [List.getElem?_append_left (lt_of_getElem? hdeleted)]
  exact hdeleted

/-- **The update, step by step.**  Alone, it is a run of the system of updates and queries. -/
theorem update_run (h : dm.update fuel junk location files logs = .ok (b, dm'))
    {s : AccessState} (htrace : s.trace = dm.trace) (hheap : s.heap = dm.heap)
    (hstage : s.update = .registered) :
    ∃ t, buildTrace fuel junk location files logs = .ok t ∧ b = t.okay ∧
      run (accessStep t) s [.lock, .delete, .store, .unlock, .okay]
        = some { s with trace := dm'.trace, heap := dm'.heap, update := .replied,
                        okay := some dm'.served } := by
  obtain ⟨t, hbuild, rfl, rfl⟩ := update_eq_ok.mp h
  refine ⟨t, hbuild, rfl, ?_⟩
  cases s with
  | mk known trace heap update okay handlers =>
      simp only at htrace hheap hstage
      subst htrace hheap hstage
      cases htrace : dm.trace with
      | none => simp [run, accessStep, DataManager.storeTrace, DataManager.deleteTrace, htrace,
          DataManager.served]
      | some i => simp [run, accessStep, DataManager.storeTrace, DataManager.deleteTrace, htrace,
          DataManager.served]

/-- What is wanted of an update.  One that cannot open a file returns false and leaves what is
served; one that succeeds serves what it has built. -/
structure UpdateAtomic (junk : Junk) (location : Location) (files : Files) (dm : DataManager)
    (logs : Text) : Prop where
  failure : linefile files logs = none ∨ tracefile files logs = none →
    ∃ n dm', (∀ fuel, n ≤ fuel → dm.update fuel junk location files logs = .ok (false, dm')) ∧
      dm'.served = dm.served
  success : ∀ fuel dm', dm.update fuel junk location files logs = .ok (true, dm') →
    ∃ t, buildTrace fuel junk location files logs = .ok t ∧ dm'.served = .of t

/-- **When an update is atomic.**  Only when nothing can fail: both logs have to be readable,
whatever was served before.  The old trace is deleted before the files are opened, so an update that
cannot open one of them never returns with the old trace in place; one that succeeds serves what it
has built, whatever the logs are. -/
theorem update_atomic_iff (junk : Junk) (location : Location) (files : Files) (dm : DataManager)
    (logs : Text) : UpdateAtomic junk location files dm logs ↔
      (linefile files logs).isSome ∧ (tracefile files logs).isSome := by
  constructor
  · intro h
    by_contra hmissing
    have hnone : linefile files logs = none ∨ tracefile files logs = none := by
      rw [not_and_or] at hmissing
      simpa using hmissing
    obtain ⟨n, dm', hreturn, -⟩ := h.failure hnone
    obtain ⟨t, hbuild, -⟩ := update_serves_new (hreturn n (le_refl n))
    exact construct_ne_ok hnone hbuild
  · rintro ⟨hline, htrace⟩
    refine ⟨fun hnone => ?_, fun fuel dm' hreturn => ?_⟩
    · rcases hnone with hnone | hnone
      · rw [hnone] at hline
        cases hline
      · rw [hnone] at htrace
        cases htrace
    · obtain ⟨t, hbuild, -, hserved, -⟩ := update_serves_new hreturn
      exact ⟨t, hbuild, hserved⟩

end Update

/-- A `DataManager` that serves a trace. -/
def loadedManager : DataManager := ⟨"a.out".toList, some 0, [some twoBlocks]⟩

/-- The line file is there, the trace file is not. -/
def onlyLines : Files := fun path => if path = "run.line".toList then some goodLines else none

/-- The old trace is gone before the new one turns out to be missing. -/
theorem missingTrace_not_atomic :
    ¬ UpdateAtomic ⟨'?', 0⟩ ⟨[], 0, 0⟩ onlyLines loadedManager "run".toList := by
  intro h
  have hnone : tracefile onlyLines "run".toList = none := by decide
  obtain ⟨n, dm', hreturn, -⟩ := h.failure (Or.inr hnone)
  obtain ⟨t, hbuild, -⟩ := update_eq_ok.mp (hreturn n (le_refl n))
  exact construct_ne_ok (Or.inr hnone) hbuild

end PerVERT
