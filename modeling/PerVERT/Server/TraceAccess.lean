import PerVERT.Backend.Trace
import PerVERT.Core.Transition

/-!
# Queries while a trace is replaced

The query handlers fetch the `Trace*` of a `DataManager` without its lock, and read through it
while `/pp/update` may delete the trace and store another.

* `AccessAction`, `AccessState`, `accessStep` — one update of an executable, and any number of
  queries about it, in any order.
* `OneTrace` — every handler has read one trace, the old or the new, and nothing else.
* `InOrder` — the condition on a step: a pointer is fetched while a trace is in place, and the old
  trace is deleted when nobody reads it.
* **`queries_oneTrace_iff`** — this is how runs in which every query reads one trace differ from
  the others.

A `Trace` is known by its position in the list of all that were built, so an address that is used
again does not make a deleted trace live.
-/

namespace PerVERT

/-! ## The system -/

/-- How far `pp_update` has come. -/
inductive Stage
  | waiting
  | registered
  | locked
  /-- The old trace is deleted, and `_trace` still points to it. -/
  | deleted
  | stored
  | unlocked
  | replied
  deriving DecidableEq, Repr

/-- What is found by a read through a `Trace*`. -/
inductive Read
  | null
  | deleted
  | of (trace : Trace)

/-- A request about the executable. -/
inductive Handler
  | received
  /-- The executable is not known: status 500. -/
  | refused
  /-- The executable is known. -/
  | found
  /-- It has fetched the pointer, and has more to read. -/
  | reading (pointer : Option ℕ) (reads : List Read)
  | answered (reads : List Read)

/-- A `DataManager`, the traces that were built for it, and the requests. -/
structure AccessState where
  /-- `_dms.count(exec)`. -/
  known : Bool
  /-- `_trace`. -/
  trace : Option ℕ
  /-- All traces that were built; `none` for one that is deleted. -/
  heap : List (Option Trace)
  update : Stage
  /-- What `_trace->okay()` was read from. -/
  okay : Option Read
  handlers : List Handler

/-- Before the update.  An executable that is known has a trace. -/
def AccessState.start (old : Option Trace) : AccessState where
  known := old.isSome
  trace := old.map fun _ => 0
  heap := old.toList.map some
  update := .waiting
  okay := none
  handlers := []

/-- The steps of the update, and those of the `q`-th query. -/
inductive AccessAction
  | register
  | lock
  | delete
  | store
  | unlock
  | okay
  | query
  | lookup (q : ℕ)
  | fetch (q : ℕ)
  /-- A read with more reads to come. -/
  | use (q : ℕ)
  /-- The last read, and the response. -/
  | answer (q : ℕ)
  deriving DecidableEq, Repr

/-- A read through a `Trace*`. -/
def readThrough (heap : List (Option Trace)) : Option ℕ → Read
  | none => .null
  | some i =>
      match heap[i]? with
      | some (some trace) => .of trace
      | _ => .deleted

/-- The steps of a query, each enabled after the one before it. -/
def Handler.step (s : AccessState) : Handler → AccessAction → Option Handler
  | .received, .lookup _ => some (if s.known then .found else .refused)
  | .found, .fetch _ => some (.reading s.trace [])
  | .reading pointer reads, .use _ =>
      some (.reading pointer (readThrough s.heap pointer :: reads))
  | .reading pointer reads, .answer _ => some (.answered (readThrough s.heap pointer :: reads))
  | _, _ => none

/-- The `q`-th query takes a step. -/
def handlerStep (s : AccessState) (q : ℕ) (a : AccessAction) : Option AccessState := do
  let h ← s.handlers[q]?
  let h' ← h.step s a
  pure { s with handlers := s.handlers.set q h' }

/-- One step, when the update builds the trace `new`. -/
def accessStep (new : Trace) (s : AccessState) : AccessAction → Option AccessState
  | .register =>
      if s.update = .waiting then
        -- a `DataManager` that is created starts with `_trace = 0`
        some { s with
          known := true
          trace := if s.known then s.trace else none
          update := .registered }
      else none
  | .lock => if s.update = .registered then some { s with update := .locked } else none
  | .delete =>
      if s.update = .locked then
        some { s with
          heap := match s.trace with
            | none => s.heap
            | some i => s.heap.set i none
          update := .deleted }
      else none
  | .store =>
      if s.update = .deleted then
        some { s with
          trace := some s.heap.length
          heap := s.heap ++ [some new]
          update := .stored }
      else none
  | .unlock => if s.update = .stored then some { s with update := .unlocked } else none
  | .okay =>
      if s.update = .unlocked then
        some { s with okay := some (readThrough s.heap s.trace), update := .replied }
      else none
  | .query => some { s with handlers := s.handlers ++ [.received] }
  | .lookup q => handlerStep s q (.lookup q)
  | .fetch q => handlerStep s q (.fetch q)
  | .use q => handlerStep s q (.use q)
  | .answer q => handlerStep s q (.answer q)

/-! ## What is wanted, and when it is reached -/

/-- What a handler has read so far. -/
def Handler.reads : Handler → List Read
  | .reading _ reads | .answered reads => reads
  | _ => []

/-- The pointer through which a handler has more to read. -/
def Handler.pointer : Handler → Option (Option ℕ)
  | .reading pointer _ => some pointer
  | _ => none

/-- Every handler has read one trace, from before the update or from after it, and so has
`pp_update` when it replies. -/
def OneTrace (old : Option Trace) (new : Trace) (s : AccessState) : Prop :=
  (∀ h ∈ s.handlers, ∃ t, (old = some t ∨ t = new) ∧ ∀ r ∈ h.reads, r = .of t) ∧
    ∀ r, s.okay = some r → r = .of new

/-- A pointer is fetched when it is not NULL, and not between the delete and the store.  The old
trace is deleted when no handler has more to read. -/
def InOrder (s : AccessState) : AccessAction → Prop
  | .fetch _ => s.trace ≠ none ∧ s.update ≠ .deleted
  | .delete => ∀ h ∈ s.handlers, h.pointer = none
  | _ => True

instance (s : AccessState) : ∀ a, Decidable (InOrder s a)
  | .fetch _ => inferInstanceAs (Decidable (s.trace ≠ none ∧ s.update ≠ .deleted))
  | .delete => inferInstanceAs (Decidable (∀ h ∈ s.handlers, h.pointer = none))
  | .register | .lock | .store | .unlock | .okay | .query | .lookup _ | .use _ | .answer _ =>
      isTrue trivial

/-! ## The traces at each stage -/

section Stages

variable {old : Option Trace} {new : Trace} {s s' : AccessState} {a : AccessAction}

/-- The traces that have been built. -/
def heapAt (old : Option Trace) (new : Trace) : Stage → List (Option Trace)
  | .waiting | .registered | .locked => old.toList.map some
  | .deleted => old.toList.map fun _ => none
  | .stored | .unlocked | .replied => (old.toList.map fun _ => none) ++ [some new]

/-- The one `_trace` points to. -/
def traceAt (old : Option Trace) : Stage → Option ℕ
  | .waiting | .registered | .locked | .deleted => old.map fun _ => 0
  | .stored | .unlocked | .replied => some old.toList.length

/-- `_trace` points to a trace that has been built, unless it is NULL. -/
lemma traceAt_lt {stage : Stage} {i : ℕ} (h : traceAt old stage = some i) :
    i < (heapAt old new stage).length := by
  cases stage <;> cases old <;> simp [traceAt, heapAt] at h ⊢ <;> omega

/-- What holds in every state, in order or not. -/
structure Shape (old : Option Trace) (new : Trace) (s : AccessState) : Prop where
  heap_eq : s.heap = heapAt old new s.update
  trace_eq : s.trace = traceAt old s.update
  known_eq : s.update = .waiting → s.known = old.isSome
  okay_eq : ∀ r, s.okay = some r → r = .of new
  /-- A pointer that was fetched points to something that was built. -/
  lt_length : ∀ h ∈ s.handlers, ∀ i, h.pointer = some (some i) → i < s.heap.length

lemma shape_start (old : Option Trace) (new : Trace) : Shape old new (.start old) := by
  constructor <;> simp [AccessState.start, heapAt, traceAt]

/-- A read finds the old trace or the new one, if it finds any. -/
lemma Shape.own (h : Shape old new s) {p : Option ℕ} {t : Trace}
    (hread : readThrough s.heap p = .of t) : old = some t ∨ t = new := by
  cases p with
  | none => cases hread
  | some i =>
      have hmem : some t ∈ s.heap := by
        rw [readThrough] at hread
        split at hread
        · next trace hi =>
            cases hread
            exact List.mem_of_getElem? hi
        · cases hread
      rw [h.heap_eq] at hmem
      cases hstage : s.update <;> cases old <;> simp_all [heapAt]

/-- When `_trace` is set, and not to a deleted trace, then a read through it finds a trace. -/
lemma Shape.readThrough_trace (h : Shape old new s) (hset : s.trace ≠ none)
    (hstage : s.update ≠ .deleted) : ∃ t, readThrough s.heap s.trace = .of t := by
  rw [h.heap_eq, h.trace_eq]
  rw [h.trace_eq] at hset
  cases hupdate : s.update <;> cases old <;>
    simp_all [heapAt, traceAt, readThrough]

/-- When it is not, then a read through it finds none. -/
lemma Shape.readThrough_trace_ne (h : Shape old new s)
    (hbad : ¬ (s.trace ≠ none ∧ s.update ≠ .deleted)) (t : Trace) :
    readThrough s.heap s.trace ≠ .of t := by
  rw [h.heap_eq, h.trace_eq]
  rw [h.trace_eq] at hbad
  cases hupdate : s.update <;> cases old <;>
    simp_all [heapAt, traceAt, readThrough]

/-- Once the old trace is deleted, and before the new one is stored, no read finds a trace. -/
lemma Shape.readThrough_deleted (h : Shape old new s) (hstage : s.update = .deleted)
    (p : Option ℕ) (t : Trace) : readThrough s.heap p ≠ .of t := by
  rw [h.heap_eq, hstage]
  rcases p with _ | _ | i <;> cases old <;> simp [heapAt, readThrough]

/-! ## One step -/

lemma handlerStep_eq_some {q : ℕ} : handlerStep s q a = some s' ↔
    ∃ h h', s.handlers[q]? = some h ∧ h.step s a = some h' ∧
      s' = { s with handlers := s.handlers.set q h' } := by
  simp only [handlerStep, Option.bind_eq_bind, Option.bind_eq_some_iff, Option.pure_def,
    Option.some.injEq]
  constructor
  · rintro ⟨h, hq, h', hstep, rfl⟩
    exact ⟨h, h', hq, hstep, rfl⟩
  · rintro ⟨h, h', hq, hstep, rfl⟩
    exact ⟨h, hq, h', hstep, rfl⟩

/-- Everything a query can do: it has nothing to do with a trace yet, or it fetches the pointer,
or it reads through the pointer that it has, for the last time or not. -/
lemma Handler.step_cases {h h' : Handler} (hstep : h.step s a = some h') :
    (h'.reads = [] ∧ h'.pointer = none ∧ h.pointer = none ∧ h.reads = []) ∨
    ((∃ q, a = .fetch q) ∧ h.reads = [] ∧ h.pointer = none ∧ h' = .reading s.trace []) ∨
    ∃ p, h.pointer = some p ∧ h'.reads = readThrough s.heap p :: h.reads ∧
      (h'.pointer = some p ∨ h'.pointer = none) := by
  cases h <;> cases a <;> cases hstep
  case received.lookup q =>
      left
      cases s.known <;> exact ⟨rfl, rfl, rfl, rfl⟩
  case found.fetch q =>
      right; left
      exact ⟨⟨q, rfl⟩, rfl, rfl, rfl⟩
  case reading.use p reads q =>
      right; right
      exact ⟨p, rfl, rfl, Or.inl rfl⟩
  case reading.answer p reads q =>
      right; right
      exact ⟨p, rfl, rfl, Or.inr rfl⟩

/-- A step is one of a query, which leaves the traces alone, or of something else, which leaves
the queries alone or adds a new one. -/
lemma accessStep_cases (hstep : accessStep new s a = some s') :
    (∃ q, handlerStep s q a = some s') ∨
    ((s'.handlers = s.handlers ∨ s'.handlers = s.handlers ++ [.received]) ∧
      (s'.heap = s.heap ∨ (a = .delete ∧ s'.update = .deleted) ∨
        s'.heap = s.heap ++ [some new])) := by
  cases a with
  | lookup q | fetch q | use q | answer q => exact Or.inl ⟨q, hstep⟩
  | query =>
      cases Option.some.inj hstep
      exact Or.inr ⟨Or.inr rfl, Or.inl rfl⟩
  | register | lock | unlock | okay =>
      simp only [accessStep] at hstep
      split at hstep
      · cases Option.some.inj hstep
        exact Or.inr ⟨Or.inl rfl, Or.inl rfl⟩
      · cases hstep
  | delete =>
      simp only [accessStep] at hstep
      split_ifs at hstep
      cases Option.some.inj hstep
      exact Or.inr ⟨Or.inl rfl, Or.inr (Or.inl ⟨rfl, rfl⟩)⟩
  | store =>
      simp only [accessStep] at hstep
      split_ifs at hstep
      cases Option.some.inj hstep
      exact Or.inr ⟨Or.inl rfl, Or.inr (Or.inr rfl)⟩

lemma Shape.pointer_lt (h : Shape old new s) {k k' : Handler} (hk : k ∈ s.handlers)
    (hstep : k.step s a = some k') {i : ℕ} (hi : k'.pointer = some (some i)) :
    i < s.heap.length := by
  rcases Handler.step_cases hstep with ⟨-, hnone, -⟩ | ⟨-, -, -, rfl⟩ | ⟨p, hp, -, hp'⟩
  · rw [hnone] at hi
    cases hi
  · have htrace : s.trace = some i := Option.some.inj hi
    rw [h.trace_eq] at htrace
    rw [h.heap_eq]
    exact traceAt_lt htrace
  · rcases hp' with hp' | hp'
    · exact h.lt_length k hk i (hp.trans (hp'.symm.trans hi))
    · rw [hp'] at hi
      cases hi

/-- The traces stay as the stage says. -/
lemma Shape.step (h : Shape old new s) (hstep : accessStep new s a = some s') :
    Shape old new s' := by
  cases a with
  | register =>
      simp only [accessStep] at hstep
      split at hstep
      · next hstage =>
          cases Option.some.inj hstep
          refine ⟨?_, ?_, by simp, h.okay_eq, h.lt_length⟩
          · rw [h.heap_eq, hstage]
            rfl
          · show (if s.known then s.trace else none) = _
            rw [h.trace_eq, h.known_eq hstage, hstage]
            cases old <;> rfl
      · cases hstep
  | lock | unlock =>
      simp only [accessStep] at hstep
      split_ifs at hstep with hstage
      cases Option.some.inj hstep
      refine ⟨?_, ?_, by simp, h.okay_eq, h.lt_length⟩
      · rw [h.heap_eq, hstage]
        rfl
      · rw [h.trace_eq, hstage]
        rfl
  | delete =>
      simp only [accessStep] at hstep
      split_ifs at hstep with hstage
      cases Option.some.inj hstep
      have hheap := h.heap_eq
      have htrace := h.trace_eq
      have hlt := h.lt_length
      rw [hstage] at hheap htrace
      refine ⟨?_, htrace, by simp, h.okay_eq, ?_⟩
      · rw [hheap, htrace]
        cases old <;> rfl
      · intro k hk i hi
        have hi := hlt k hk i hi
        cases hs : s.trace <;> simpa [hs] using hi
  | store =>
      simp only [accessStep] at hstep
      split_ifs at hstep with hstage
      cases Option.some.inj hstep
      have hheap := h.heap_eq
      rw [hstage] at hheap
      refine ⟨?_, ?_, by simp, h.okay_eq, fun k hk i hi => ?_⟩
      · rw [hheap]
        rfl
      · rw [hheap]
        simp [heapAt, traceAt]
      · exact Nat.lt_of_lt_of_le (h.lt_length k hk i hi) (by simp)
  | okay =>
      simp only [accessStep] at hstep
      split_ifs at hstep with hstage
      cases Option.some.inj hstep
      have hheap := h.heap_eq
      have htrace := h.trace_eq
      rw [hstage] at hheap htrace
      refine ⟨hheap, htrace, by simp, ?_, h.lt_length⟩
      rintro r heq
      cases heq
      rw [hheap, htrace]
      simp [heapAt, traceAt, readThrough]
  | query =>
      cases Option.some.inj hstep
      refine ⟨h.heap_eq, h.trace_eq, h.known_eq, h.okay_eq, fun k hk i hi => ?_⟩
      rcases List.mem_append.mp hk with hk | hk
      · exact h.lt_length k hk i hi
      · rw [List.mem_singleton.mp hk] at hi
        cases hi
  | lookup q | fetch q | use q | answer q =>
      obtain ⟨k, k', hq, hk', rfl⟩ := handlerStep_eq_some.mp hstep
      refine ⟨h.heap_eq, h.trace_eq, h.known_eq, h.okay_eq, fun l hl i hi => ?_⟩
      rcases List.mem_or_eq_of_mem_set hl with hl | rfl
      · exact h.lt_length l hl i hi
      · exact h.pointer_lt (List.mem_of_getElem? hq) hk' hi

/-! ## In order, every query reads one trace -/

/-- A handler has read one trace, and finds it when it reads on. -/
def Handler.OneTrace (old : Option Trace) (new : Trace) (heap : List (Option Trace))
    (h : Handler) : Prop :=
  ∃ t, (old = some t ∨ t = new) ∧ (∀ r ∈ h.reads, r = .of t) ∧
    ∀ p, h.pointer = some p → readThrough heap p = .of t

lemma Handler.oneTrace_of_none {heap : List (Option Trace)} {h : Handler} (hreads : h.reads = [])
    (hpointer : h.pointer = none) : h.OneTrace old new heap := by
  refine ⟨new, Or.inr rfl, ?_, ?_⟩ <;> simp [hreads, hpointer]

lemma readThrough_append {heap l : List (Option Trace)} {p : Option ℕ} {t : Trace}
    (h : readThrough heap p = .of t) : readThrough (heap ++ l) p = .of t := by
  cases p with
  | none => cases h
  | some i =>
      simp only [readThrough] at h ⊢
      split at h
      · next trace hi =>
          rw [List.getElem?_append_left (lt_of_getElem? hi), hi]
          exact h
      · cases h

lemma oneTrace_step (hshape : Shape old new s)
    (h : ∀ k ∈ s.handlers, k.OneTrace old new s.heap) (horder : InOrder s a)
    (hstep : accessStep new s a = some s') : ∀ k ∈ s'.handlers, k.OneTrace old new s'.heap := by
  rcases accessStep_cases hstep with ⟨q, hq⟩ | ⟨hhandlers, hheap⟩
  · -- a query takes a step
    obtain ⟨k, k', hk, hk', rfl⟩ := handlerStep_eq_some.mp hq
    intro l hl
    rcases List.mem_or_eq_of_mem_set hl with hl | rfl
    · exact h l hl
    · rcases Handler.step_cases hk' with ⟨hr, hp, -, -⟩ | ⟨⟨q, rfl⟩, -, -, rfl⟩ | ⟨p, hp, hr, hp'⟩
      · exact Handler.oneTrace_of_none hr hp
      · obtain ⟨t, ht⟩ := hshape.readThrough_trace horder.1 horder.2
        refine ⟨t, hshape.own ht, by simp [Handler.reads], ?_⟩
        rintro p heq
        cases heq
        exact ht
      · obtain ⟨t, hown, hreads, hpointer⟩ := h k (List.mem_of_getElem? hk)
        refine ⟨t, hown, ?_, fun p' hp'' => ?_⟩
        · rw [hr]
          rintro r hr
          rcases List.mem_cons.mp hr with rfl | hr
          · exact hpointer p hp
          · exact hreads r hr
        · rcases hp' with hp' | hp'
          · cases Option.some.inj (hp''.symm.trans hp')
            exact hpointer p hp
          · rw [hp'] at hp''
            cases hp''
  · -- the traces change, or a query arrives
    have hkeep : ∀ k ∈ s.handlers, k.OneTrace old new s'.heap := by
      intro k hk
      obtain ⟨t, hown, hreads, hpointer⟩ := h k hk
      refine ⟨t, hown, hreads, fun p hp => ?_⟩
      rcases hheap with hheap | ⟨rfl, -⟩ | hheap
      · rw [hheap]
        exact hpointer p hp
      · rw [horder k hk] at hp
        cases hp
      · rw [hheap]
        exact readThrough_append (hpointer p hp)
    rcases hhandlers with hhandlers | hhandlers
    · rw [hhandlers]
      exact hkeep
    · rw [hhandlers]
      intro k hk
      rcases List.mem_append.mp hk with hk | hk
      · exact hkeep k hk
      · rw [List.mem_singleton.mp hk]
        exact Handler.oneTrace_of_none rfl rfl

/-- Every state of a run in order. -/
lemma oneTrace_of_inOrder {acts : List AccessAction}
    (hmeet : StepsMeet (accessStep new) (.start old) (fun _ => InOrder) acts)
    (hrun : run (accessStep new) (.start old) acts = some s) : OneTrace old new s := by
  obtain ⟨hshape, hone⟩ := @run_invariant _ _ (accessStep new) (.start old) (fun _ => InOrder)
    (fun _ s => Shape old new s ∧ ∀ k ∈ s.handlers, k.OneTrace old new s.heap)
    ⟨shape_start old new, by simp [AccessState.start]⟩
    (fun _ h horder hstep => ⟨h.1.step hstep, oneTrace_step h.1 h.2 horder hstep⟩) acts s hmeet hrun
  refine ⟨fun k hk => ?_, hshape.okay_eq⟩
  obtain ⟨t, hown, hreads, -⟩ := hone k hk
  exact ⟨t, hown, hreads⟩

/-! ## Out of order, some query does not -/

/-- A handler has read what is not a trace, or is about to. -/
def Handler.Doomed (heap : List (Option Trace)) (h : Handler) : Prop :=
  (∃ r ∈ h.reads, ∀ t, r ≠ .of t) ∨ ∃ p, h.pointer = some p ∧ ∀ t, readThrough heap p ≠ .of t

/-- The handler of some query is. -/
def Doomed (s : AccessState) : Prop :=
  ∃ (q : ℕ) (k : Handler), s.handlers[q]? = some k ∧ k.Doomed s.heap

lemma readThrough_append_ne {heap l : List (Option Trace)} {p : Option ℕ}
    (h : ∀ t, readThrough heap p ≠ .of t) (hlt : ∀ i, p = some i → i < heap.length) (t : Trace) :
    readThrough (heap ++ l) p ≠ .of t := by
  cases p with
  | none => exact h t
  | some i =>
      have ht := h t
      simp only [readThrough] at ht ⊢
      rwa [List.getElem?_append_left (hlt i rfl)]

/-- A handler that is doomed does not recover. -/
lemma Handler.Doomed.step {k k' : Handler} (h : k.Doomed s.heap) (hstep : k.step s a = some k') :
    k'.Doomed s.heap := by
  rcases Handler.step_cases hstep with ⟨-, -, hp, hr⟩ | ⟨-, hr, hp, -⟩ | ⟨p, hp, hr, -⟩
  · simp [Handler.Doomed, hp, hr] at h
  · simp [Handler.Doomed, hp, hr] at h
  · left
    rw [hr]
    rcases h with ⟨r, hmem, hbad⟩ | ⟨p', hp', hbad⟩
    · exact ⟨r, List.mem_cons_of_mem _ hmem, hbad⟩
    · cases Option.some.inj (hp.symm.trans hp')
      exact ⟨_, List.mem_cons_self, hbad⟩

lemma Doomed.step (hshape : Shape old new s) (h : Doomed s) (hstep : accessStep new s a = some s') :
    Doomed s' := by
  obtain ⟨q, k, hk, hdoomed⟩ := h
  rcases accessStep_cases hstep with ⟨v, hv⟩ | ⟨hhandlers, hheap⟩
  · -- a query takes a step, and it may be this one
    obtain ⟨l, l', hl, hl', rfl⟩ := handlerStep_eq_some.mp hv
    by_cases hqv : q = v
    · subst hqv
      cases Option.some.inj (hk.symm.trans hl)
      exact ⟨q, l', by simp [lt_of_getElem? hl], hdoomed.step hl'⟩
    · exact ⟨q, k, by simpa [List.getElem?_set_ne (Ne.symm hqv)] using hk, hdoomed⟩
  · -- the traces change, or another query arrives
    refine ⟨q, k, ?_, hdoomed.imp id ?_⟩
    · rcases hhandlers with hhandlers | hhandlers
      · rw [hhandlers]
        exact hk
      · rw [hhandlers]
        exact getElem?_snoc.mpr (Or.inl hk)
    · rintro ⟨p, hp, hbad⟩
      refine ⟨p, hp, ?_⟩
      rcases hheap with hheap | ⟨-, hstage⟩ | hheap
      · rw [hheap]
        exact hbad
      · exact (hshape.step hstep).readThrough_deleted hstage p
      · rw [hheap]
        refine readThrough_append_ne hbad fun i hi => ?_
        exact hshape.lt_length k (List.mem_of_getElem? hk) i (hi ▸ hp)

/-- A step out of order dooms a handler. -/
lemma doomed_of_not_inOrder (hshape : Shape old new s) (hstep : accessStep new s a = some s')
    (horder : ¬ InOrder s a) : Doomed s' := by
  cases a with
  | fetch q =>
      obtain ⟨k, k', hk, hk', rfl⟩ := handlerStep_eq_some.mp hstep
      obtain rfl : k' = .reading s.trace [] := by
        cases k <;> cases hk'
        rfl
      exact ⟨q, .reading s.trace [], by simp [lt_of_getElem? hk],
        Or.inr ⟨s.trace, rfl, hshape.readThrough_trace_ne horder⟩⟩
  | delete =>
      have hreading : ∃ k ∈ s.handlers, k.pointer ≠ none := by
        by_contra hnone
        exact horder fun k hk => by_contra fun hp => hnone ⟨k, hk, hp⟩
      obtain ⟨k, hk, hp⟩ := hreading
      obtain ⟨p, hp⟩ := Option.ne_none_iff_exists'.mp hp
      obtain ⟨q, hq⟩ := List.mem_iff_getElem?.mp hk
      have hshape' := hshape.step hstep
      simp only [accessStep] at hstep
      split_ifs at hstep
      cases Option.some.inj hstep
      exact ⟨q, k, hq, Or.inr ⟨p, hp, hshape'.readThrough_deleted rfl p⟩⟩
  | register | lock | store | unlock | okay | query | lookup q | use q | answer q =>
      exact absurd trivial horder

lemma doomed_run {acts : List AccessAction}
    (hrun : run (accessStep new) (.start old) acts = some s)
    (hnot : ¬ StepsMeet (accessStep new) (.start old) (fun _ => InOrder) acts) : Doomed s := by
  refine (@run_induction _ _ (accessStep new) (.start old)
    (fun acts s => Shape old new s ∧
      (¬ StepsMeet (accessStep new) (.start old) (fun _ => InOrder) acts → Doomed s))
    ⟨shape_start old new, fun h => absurd StepsMeet.nil h⟩ ?_ acts s hrun).2 hnot
  rintro acts s a s' hrun ⟨hshape, hdoomed⟩ hstep
  refine ⟨hshape.step hstep, fun hnot => ?_⟩
  by_cases hmeet : StepsMeet (accessStep new) (.start old) (fun _ => InOrder) acts
  · exact doomed_of_not_inOrder hshape hstep fun horder =>
      hnot ((stepsMeet_append hrun).mpr ⟨hmeet, horder⟩)
  · exact (hdoomed hmeet).step hshape hstep

/-- When no handler has more to read, a handler that was doomed has read what is not a trace. -/
lemma Doomed.not_oneTrace (h : Doomed s) (hdone : ∀ k ∈ s.handlers, k.pointer = none) :
    ¬ OneTrace old new s := by
  obtain ⟨q, k, hk, hdoomed⟩ := h
  have hmem : k ∈ s.handlers := List.mem_of_getElem? hk
  rcases hdoomed with ⟨r, hr, hbad⟩ | ⟨p, hp, -⟩
  · intro hone
    obtain ⟨t, -, hreads⟩ := hone.1 k hmem
    exact hbad t (hreads r hr)
  · rw [hdone k hmem] at hp
    cases hp

/-- **When no query meets a missing trace.**  In a run in order every query has read one trace, the
old or the new, in every state.  A run that is not in order has no such end: when every query has
read all it wants, one of them has read what is not a trace. -/
theorem queries_oneTrace_iff {acts : List AccessAction}
    (hrun : run (accessStep new) (.start old) acts = some s) :
    (StepsMeet (accessStep new) (.start old) (fun _ => InOrder) acts → OneTrace old new s) ∧
    ((∀ k ∈ s.handlers, k.pointer = none) → OneTrace old new s →
      StepsMeet (accessStep new) (.start old) (fun _ => InOrder) acts) := by
  refine ⟨fun hmeet => oneTrace_of_inOrder hmeet hrun, fun hdone hone => ?_⟩
  by_contra hnot
  exact (doomed_run hrun hnot).not_oneTrace hdone hone

end Stages

/-! ## Two runs -/

/-- A query that comes first, one that waits for the new trace, and an update of a known
executable. -/
def queriesAroundUpdate : List AccessAction :=
  [.register, .query, .lookup 0, .fetch 0, .use 0, .query, .lookup 1, .answer 0, .lock, .delete,
    .store, .fetch 1, .unlock, .use 1, .okay, .answer 1]

/-- The first update of an executable, and a query before there is a trace. -/
def queryBeforeTrace : List AccessAction :=
  [.register, .query, .lookup 0, .fetch 0, .use 0]

/-- An update that deletes the trace under a query. -/
def deleteUnderQuery : List AccessAction :=
  [.query, .lookup 0, .fetch 0, .use 0, .register, .lock, .delete, .use 0]

/-- The trace of two empty files. -/
def emptyTrace : Trace where
  okay := true
  locations := []
  contexts := fun _ => none
  events := []
  byType := fun _ => []
  byContext := fun _ => []
  validRegions := []
  maxAddress := 0
  cacheLine := 1024

/-- The trace of two files that could not be opened. -/
def unopenedTrace : Trace :=
  { emptyTrace with okay := false }

theorem queriesAroundUpdate_oneTrace :
    ∃ s, run (accessStep unopenedTrace) (.start (some emptyTrace)) queriesAroundUpdate = some s ∧
      OneTrace (some emptyTrace) unopenedTrace s :=
  ⟨_, rfl, (@queries_oneTrace_iff (some emptyTrace) unopenedTrace _ queriesAroundUpdate rfl).1
    (by decide)⟩

/-- One query reads through NULL, and another through a pointer to a deleted trace. -/
theorem queries_not_oneTrace :
    (∃ s, run (accessStep emptyTrace) (.start none) queryBeforeTrace = some s ∧
      ¬ OneTrace none emptyTrace s) ∧
    ∃ s, run (accessStep unopenedTrace) (.start (some emptyTrace)) deleteUnderQuery = some s ∧
      ¬ OneTrace (some emptyTrace) unopenedTrace s := by
  refine ⟨⟨⟨true, none, [], .registered, none, [.reading none [.null]]⟩, rfl, fun h => ?_⟩,
    ⟨⟨true, some 0, [none], .deleted, none, [.reading (some 0) [.deleted, .of emptyTrace]]⟩, rfl,
      fun h => ?_⟩⟩
  · obtain ⟨t, -, ht⟩ := h.1 (.reading none [.null]) (by simp)
    cases ht .null (by simp [Handler.reads])
  · obtain ⟨t, -, ht⟩ := h.1 (.reading (some 0) [.deleted, .of emptyTrace]) (by simp)
    cases ht .deleted (by simp [Handler.reads])

end PerVERT
