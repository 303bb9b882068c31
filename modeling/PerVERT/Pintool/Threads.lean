import PerVERT.Pintool.Recorder
import Mathlib.Logic.Function.Basic

/-!
# Malloc calls of several threads

The recorder learns the size of a block at the entry of `malloc` and its address at the return,
and keeps the size in between in one global, `request`.  Calls of several threads overlap, and
calls of one thread may nest.

* `MallocAction`, `pendingCalls`, `WellNested` — entries and returns, and which call a return
  belongs to: the innermost one of its thread that is still pending.
* `SizesRight` — every record has the size its own call asked for.
* `LatestIsOwn` — at every return, the latest entry of any thread carried the size of the call
  that returns.
* **`sizesRight_iff`** — the two are equivalent; they hold of no overlap of calls of different
  sizes (`overlappingCalls_wrong`).
-/

namespace PerVERT

/-! ## Calls -/

/-- A callback of the recorder around `malloc`, with the thread it runs in. -/
inductive MallocAction
  | enter (thread : ℕ) (size : UInt64)
  | ret (thread : ℕ) (ip addr : UInt64) (stack : List Activation)

/-- What the recorder sees: no callback tells it the thread. -/
def MallocAction.callback : MallocAction → Callback
  | .enter _ size => .malloc size
  | .ret _ ip addr stack => .mallocResult ip addr stack

/-- The recorder after the actions, each running as one step. -/
def recorderOf (acts : List MallocAction) : Recorder :=
  Recorder.run (acts.map MallocAction.callback)

/-- What really happens: the sizes of the pending calls of each thread, innermost first, the
sizes that the calls returned so far had asked for, and the size of the latest entry. -/
structure Calls where
  pending : ℕ → List UInt64
  returned : List (Option UInt64)
  latest : Option UInt64

/-- The size of the call that the next return of the thread belongs to. -/
def Calls.ownSize (c : Calls) (thread : ℕ) : Option UInt64 := (c.pending thread).head?

/-- One action. -/
def Calls.step (c : Calls) : MallocAction → Calls
  | .enter t size =>
      { c with pending := Function.update c.pending t (size :: c.pending t), latest := some size }
  | .ret t _ _ _ =>
      { c with
        pending := Function.update c.pending t (c.pending t).tail
        returned := c.returned ++ [c.ownSize t] }

/-- The calls after the actions. -/
def callsAfter (acts : List MallocAction) : Calls :=
  acts.foldl Calls.step ⟨fun _ => [], [], none⟩

/-- A return needs a call to return from. -/
def MallocAction.Possible (c : Calls) : MallocAction → Prop
  | .enter _ _ => True
  | .ret t _ _ _ => (c.ownSize t).isSome = true

instance (c : Calls) : ∀ a : MallocAction, Decidable (a.Possible c)
  | .enter _ _ => inferInstanceAs (Decidable True)
  | .ret _ _ _ _ => inferInstanceAs (Decidable (_ = true))

/-- Every return belongs to a call. -/
def WellNested (acts : List MallocAction) : Prop :=
  EachStep (fun before a => a.Possible (callsAfter before)) acts

instance (acts : List MallocAction) : Decidable (WellNested acts) :=
  inferInstanceAs (Decidable (EachStep _ _))

/-! ## Sizes -/

/-- The size a record gives its block. -/
def RecordBody.size : RecordBody → Option UInt64
  | .M addr endAddr => some (endAddr - addr)
  | _ => none

/-- Every record gives its block the size its own call had asked for. -/
def SizesRight (acts : List MallocAction) : Prop :=
  List.Forall₂ (fun (record : Record) size => record.body.size = size)
    (recorderOf acts).trace (callsAfter acts).returned

instance (acts : List MallocAction) : Decidable (SizesRight acts) :=
  inferInstanceAs (Decidable (List.Forall₂ _ _ _))

/-- A return comes while the latest entry of any thread carried the size of the call that
returns. -/
def MallocAction.LatestOwn (c : Calls) : MallocAction → Prop
  | .enter _ _ => True
  | .ret t _ _ _ => c.latest = c.ownSize t

/-- Every return does. -/
def LatestIsOwn (acts : List MallocAction) : Prop :=
  EachStep (fun before a => a.LatestOwn (callsAfter before)) acts

lemma recorderOf_append (acts : List MallocAction) (a : MallocAction) :
    recorderOf (acts ++ [a]) = (recorderOf acts).step a.callback := by
  simp [recorderOf, Recorder.run]

lemma callsAfter_append (acts : List MallocAction) (a : MallocAction) :
    callsAfter (acts ++ [a]) = (callsAfter acts).step a := by
  simp [callsAfter]

lemma latest_isSome : ∀ {acts : List MallocAction} {t : ℕ},
    ((callsAfter acts).ownSize t).isSome = true → (callsAfter acts).latest.isSome = true := by
  intro acts
  induction acts using List.reverseRecOn with
  | nil => intro t h; simp [callsAfter, Calls.ownSize] at h
  | append_singleton acts a ih =>
      intro t h
      rw [callsAfter_append] at h ⊢
      cases a with
      | enter u size => rfl
      | ret u ip addr stack =>
          simp only [Calls.step, Calls.ownSize] at h ⊢
          by_cases hu : t = u
          · subst hu
            rw [Function.update_self] at h
            refine @ih t ?_
            cases hp : (callsAfter acts).pending t with
            | nil => rw [hp] at h; cases h
            | cons size rest => simp [Calls.ownSize, hp]
          · rw [Function.update_of_ne hu] at h
            exact @ih t h

lemma request_eq_latest : ∀ {acts : List MallocAction} {size : UInt64},
    (callsAfter acts).latest = some size → (recorderOf acts).request = size := by
  intro acts
  induction acts using List.reverseRecOn with
  | nil => intro size h; simp [callsAfter] at h
  | append_singleton acts a ih =>
      intro size h
      rw [callsAfter_append] at h
      rw [recorderOf_append]
      cases a with
      | enter t n => exact Option.some.inj h
      | ret t ip addr stack => exact ih h

/-- **Whose size a record carries.**  In every interleaving of well nested calls, the sizes are
right exactly when each return meets the entry of its own size as the latest one.  The tool keeps a
single request for all of its threads, so what a return finds there is what the last entry of any
thread has left. -/
theorem sizesRight_iff : ∀ {acts : List MallocAction}, WellNested acts →
    (SizesRight acts ↔ LatestIsOwn acts) := by
  intro acts
  induction acts using List.reverseRecOn with
  | nil => exact fun _ => iff_of_true List.Forall₂.nil EachStep.nil
  | append_singleton acts a ih =>
      intro h
      obtain ⟨hacts, ha⟩ := eachStep_append.mp h
      have ih' := ih hacts
      rw [LatestIsOwn, eachStep_append]
      rw [SizesRight, recorderOf_append, callsAfter_append]
      cases a with
      | enter t size =>
          show SizesRight acts ↔ LatestIsOwn acts ∧ True
          rw [and_true]
          exact ih'
      | ret t ip addr stack =>
          obtain ⟨latest, hlatest⟩ := Option.isSome_iff_exists.mp (latest_isSome ha)
          have hrequest := request_eq_latest hlatest
          show List.Forall₂ _ ((recorderOf acts).trace ++
              [⟨.M addr (addr + (recorderOf acts).request), ip, stack⟩])
              ((callsAfter acts).returned ++ [(callsAfter acts).ownSize t]) ↔
            LatestIsOwn acts ∧ (callsAfter acts).latest = (callsAfter acts).ownSize t
          have hsize : RecordBody.size (.M addr (addr + (recorderOf acts).request))
              = (callsAfter acts).latest := by
            rw [hlatest, hrequest, RecordBody.size, UInt64.add_comm, UInt64.add_sub_cancel]
          rw [← ih', forall₂_snoc_left, ← hsize]
          constructor
          · rintro ⟨sizes, size, heq, hall, hlast⟩
            obtain ⟨rfl, hlast'⟩ := List.append_inj' heq rfl
            cases hlast'
            exact ⟨hall, hlast⟩
          · rintro ⟨hall, hlast⟩
            exact ⟨_, _, rfl, hall, hlast⟩

/-- Two threads whose calls do not overlap. -/
theorem oneAfterTheOther_sizes :
    SizesRight [.enter 0 16, .ret 0 0x400100 0x1000 [], .enter 1 64, .ret 1 0x400100 0x2000 []] ↔
      LatestIsOwn [.enter 0 16, .ret 0 0x400100 0x1000 [], .enter 1 64,
        .ret 1 0x400100 0x2000 []] :=
  sizesRight_iff (by decide)

/-- Two threads whose calls overlap: the first block gets the size of the second. -/
theorem overlappingCalls_wrong :
    WellNested [.enter 0 16, .enter 1 64, .ret 0 0x400100 0x1000 [], .ret 1 0x400100 0x2000 []] ∧
    ¬ SizesRight [.enter 0 16, .enter 1 64, .ret 0 0x400100 0x1000 [],
      .ret 1 0x400100 0x2000 []] := by
  decide

end PerVERT
