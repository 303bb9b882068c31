import PerVERT.Pintool.Recorder
import PerVERT.Core.Transition

/-!
# Traces of programs that keep the allocator contract

A program calls `malloc` and `free` and reads and writes memory.  `malloc` returns NULL or a block
that does not begin where a block still live begins; `free` is called on live blocks or NULL.

The recorder files a failed allocation like any other, as a block at address zero, so for the
index zero is one more address that must not be allocated twice.

* `HeapOp`, `Contract` — the program's operations and what the allocator promises of them.
* `NullFreedBetween` — between any two failing allocations NULL is freed.
* **`contract_accepted_iff`** — the index accepts the trace exactly under this condition; the
  contract alone is not enough (`failedTwice_rejected`).
-/

namespace PerVERT

/-! ## Programs -/

/-- An operation of the program, with what the recorder sees of it. -/
inductive HeapOp
  | malloc (size result ip : UInt64) (stack : List Activation)
  | free (addr ip : UInt64) (stack : List Activation)
  | read (addr ip : UInt64) (stack : List Activation)
  | write (addr ip : UInt64) (stack : List Activation)

/-- The callbacks of an operation; those of `malloc` come one after the other, there being only
one thread. -/
def HeapOp.callbacks : HeapOp → List Callback
  | .malloc size result ip stack => [.malloc size, .mallocResult ip result stack]
  | .free addr ip stack => [.free ip addr stack]
  | .read addr ip stack => [.memRead ip addr stack]
  | .write addr ip stack => [.memWrite ip addr stack]

/-- The recorder after the operations. -/
def recorderAfter (ops : List HeapOp) : Recorder :=
  Recorder.run (ops.flatMap HeapOp.callbacks)

/-- What an operation does to the begins of the live blocks. -/
def HeapOp.updateLive (live : List UInt64) : HeapOp → List UInt64
  | .malloc _ result _ _ => if result = 0 then live else result :: live
  | .free addr _ _ => live.filter (· ≠ addr)
  | .read .. | .write .. => live

/-- The begins of the live blocks after the operations. -/
def liveBegins (ops : List HeapOp) : List UInt64 := ops.foldl HeapOp.updateLive []

/-- What the contract says of an operation when the blocks in `live` are live. -/
def HeapOp.Allowed (live : List UInt64) : HeapOp → Prop
  | .malloc _ result _ _ => result = 0 ∨ result ∉ live
  | .free addr _ _ => addr = 0 ∨ addr ∈ live
  | .read .. | .write .. => True

instance (live : List UInt64) : ∀ op : HeapOp, Decidable (op.Allowed live)
  | .malloc _ _ _ _ | .free _ _ _ => inferInstanceAs (Decidable (_ ∨ _))
  | .read .. | .write .. => inferInstanceAs (Decidable True)

/-- Every operation keeps the contract. -/
def Contract (ops : List HeapOp) : Prop :=
  EachStep (fun before op => op.Allowed (liveBegins before)) ops

instance (ops : List HeapOp) : Decidable (Contract ops) :=
  inferInstanceAs (Decidable (EachStep _ _))

/-! ## The condition -/

/-- The operation is a `malloc` that returns NULL. -/
def HeapOp.fails : HeapOp → Bool
  | .malloc _ result _ _ => result = 0
  | _ => false

/-- The operation is `free(NULL)`. -/
def HeapOp.freesNull : HeapOp → Bool
  | .free addr _ _ => addr = 0
  | _ => false

/-- Between any two failing allocations there is a `free(NULL)`. -/
def NullFreedBetween (ops : List HeapOp) : Prop :=
  ∀ (i j : ℕ) (op op' : HeapOp), i < j → ops[i]? = some op → ops[j]? = some op' → op.fails = true →
    op'.fails = true →
      ∃ (k : ℕ) (opk : HeapOp), i < k ∧ k < j ∧ ops[k]? = some opk ∧ opk.freesNull = true

/-- An allocation has failed and NULL has not been freed since. -/
def NullPending (ops : List HeapOp) : Prop :=
  ∃ (i : ℕ) (op : HeapOp), ops[i]? = some op ∧ op.fails = true ∧
    ∀ (k : ℕ) (opk : HeapOp), i < k → ops[k]? = some opk → opk.freesNull = false

lemma nullPending_append {ops : List HeapOp} {op : HeapOp} :
    NullPending (ops ++ [op]) ↔ op.fails = true ∨ (NullPending ops ∧ op.freesNull = false) := by
  constructor
  · rintro ⟨i, opi, hi, hfail, hlater⟩
    rcases getElem?_snoc.mp hi with hi | ⟨rfl, rfl⟩
    · refine Or.inr ⟨⟨i, opi, hi, hfail, fun k opk hk hget => ?_⟩, ?_⟩
      · exact hlater k opk hk (getElem?_snoc.mpr (Or.inl hget))
      · exact hlater ops.length op (lt_of_getElem? hi) (getElem?_snoc.mpr (Or.inr ⟨rfl, rfl⟩))
    · exact Or.inl hfail
  · rintro (hfail | ⟨⟨i, opi, hi, hfail, hlater⟩, hop⟩)
    · refine ⟨ops.length, op, getElem?_snoc.mpr (Or.inr ⟨rfl, rfl⟩), hfail, fun k opk hk hget => ?_⟩
      have := lt_of_getElem? hget
      rw [List.length_append, List.length_singleton] at this
      omega
    · refine ⟨i, opi, getElem?_snoc.mpr (Or.inl hi), hfail, fun k opk hk hget => ?_⟩
      rcases getElem?_snoc.mp hget with hget | ⟨rfl, rfl⟩
      · exact hlater k opk hk hget
      · exact hop

lemma nullFreedBetween_append {ops : List HeapOp} {op : HeapOp} :
    NullFreedBetween (ops ++ [op]) ↔
      NullFreedBetween ops ∧ (op.fails = true → ¬ NullPending ops) := by
  constructor
  · intro h
    constructor
    · intro i j opi opj hij hi hj hfi hfj
      obtain ⟨k, opk, hik, hkj, hk, hnull⟩ := h i j opi opj hij (getElem?_snoc.mpr (Or.inl hi))
        (getElem?_snoc.mpr (Or.inl hj)) hfi hfj
      rw [List.getElem?_append_left (lt_trans hkj (lt_of_getElem? hj))] at hk
      exact ⟨k, opk, hik, hkj, hk, hnull⟩
    · rintro hfail ⟨i, opi, hi, hfi, hlater⟩
      obtain ⟨k, opk, hik, hkj, hk, hnull⟩ := h i ops.length opi op (lt_of_getElem? hi)
        (getElem?_snoc.mpr (Or.inl hi)) (getElem?_snoc.mpr (Or.inr ⟨rfl, rfl⟩)) hfi hfail
      rw [List.getElem?_append_left hkj] at hk
      rw [hlater k opk hik hk] at hnull
      cases hnull
  · rintro ⟨h, hpending⟩ i j opi opj hij hi hj hfi hfj
    have hlt := lt_of_getElem? hj
    rw [List.length_append, List.length_singleton] at hlt
    rw [List.getElem?_append_left (by omega)] at hi
    rcases getElem?_snoc.mp hj with hj | ⟨rfl, rfl⟩
    · obtain ⟨k, opk, hik, hkj, hk, hnull⟩ := h i j opi opj hij hi hj hfi hfj
      exact ⟨k, opk, hik, hkj, getElem?_snoc.mpr (Or.inl hk), hnull⟩
    · -- without a `free(NULL)` after `i` the failure at `i` would still be pending
      by_contra hnone
      refine hpending hfj ⟨i, opi, hi, hfi, fun k opk hik hk => ?_⟩
      by_contra hnull
      exact hnone ⟨k, opk, hik, lt_of_getElem? hk, getElem?_snoc.mpr (Or.inl hk),
        by simpa using hnull⟩

/-! ## The recorder under the contract -/

lemma liveBegins_append (ops : List HeapOp) (op : HeapOp) :
    liveBegins (ops ++ [op]) = op.updateLive (liveBegins ops) := by
  simp [liveBegins]

lemma contract_append {ops : List HeapOp} {op : HeapOp} :
    Contract (ops ++ [op]) ↔ Contract ops ∧ op.Allowed (liveBegins ops) :=
  eachStep_append

lemma recorderAfter_append (ops : List HeapOp) (op : HeapOp) :
    recorderAfter (ops ++ [op]) = op.callbacks.foldl Recorder.step (recorderAfter ops) := by
  simp [recorderAfter, Recorder.run]

/-- What the operation does to the recorder's map, seen by its keys. -/
lemma mem_records_append (ops : List HeapOp) (op : HeapOp) (b : UInt64) :
    b ∈ (recorderAfter (ops ++ [op])).records ↔
      match op with
      | .malloc _ result _ _ => b = result ∨ b ∈ (recorderAfter ops).records
      | .free addr _ _ => b ≠ addr ∧ b ∈ (recorderAfter ops).records
      | .read .. | .write .. => b ∈ (recorderAfter ops).records := by
  rw [recorderAfter_append]
  cases op with
  | malloc size result ip stack =>
      simp [HeapOp.callbacks, Recorder.step, Recorder.recordMallocResult, Recorder.recordMalloc,
        Recorder.print, Std.TreeMap.mem_insert, @eq_comm _ b]
  | free addr ip stack =>
      simp only [HeapOp.callbacks, List.foldl_cons, List.foldl_nil, Recorder.step,
        Recorder.recordFree]
      split_ifs with h
      · simp [Recorder.print, Std.TreeMap.mem_erase, @eq_comm _ b]
      · refine ⟨fun hb => ⟨?_, hb⟩, And.right⟩
        rintro rfl
        exact h (Std.TreeMap.contains_iff_mem.mpr hb)
  | read addr ip stack | write addr ip stack =>
      simp only [HeapOp.callbacks, List.foldl_cons, List.foldl_nil, Recorder.step,
        Recorder.recordMemRead, Recorder.recordMemWrite, Recorder.recordAccess]
      split_ifs <;> rfl

/-- **The recorder's map under the contract.**  Its keys are the begins of the live blocks, and
zero while a failed allocation is pending. -/
lemma mem_records_iff : ∀ {ops : List HeapOp}, Contract ops → ∀ b : UInt64,
    b ∈ (recorderAfter ops).records ↔
      (b ≠ 0 ∧ b ∈ liveBegins ops) ∨ (b = 0 ∧ NullPending ops) := by
  intro ops
  induction ops using List.reverseRecOn with
  | nil =>
      intro _ b
      simp [recorderAfter, Recorder.run, Recorder.init, liveBegins, NullPending]
  | append_singleton ops op ih =>
      intro h b
      obtain ⟨h, hop⟩ := contract_append.mp h
      have ih' := ih h b
      rw [mem_records_append, liveBegins_append, nullPending_append]
      cases op with
      | malloc size result ip stack =>
          simp only [HeapOp.updateLive, HeapOp.fails, HeapOp.freesNull, ih', decide_eq_true_eq]
          by_cases h0 : result = 0
          · subst h0
            by_cases hb : b = 0 <;> simp [hb]
          · by_cases hb : b = 0
            · simp [hb, h0, Ne.symm h0]
            · simp [hb, h0, or_comm]
      | free addr ip stack =>
          simp only [HeapOp.updateLive, HeapOp.fails, HeapOp.freesNull, ih', decide_eq_true_eq,
            List.mem_filter, decide_eq_false_iff_not]
          by_cases hb : b = 0
          · subst hb
            simp [@eq_comm _ addr, and_comm]
          · simp [hb, and_comm]
      | read addr ip stack | write addr ip stack =>
          simpa [HeapOp.updateLive, HeapOp.fails, HeapOp.freesNull] using ih'

/-! ## When the index accepts -/

/-- What an operation prints: `malloc` a block, the others something else or nothing. -/
lemma trace_append (ops : List HeapOp) (op : HeapOp) :
    match op with
    | .malloc size result ip stack => (recorderAfter (ops ++ [op])).trace =
        (recorderAfter ops).trace ++ [⟨.M result (result + size), ip, stack⟩]
    | _ => (recorderAfter (ops ++ [op])).trace = (recorderAfter ops).trace ∨
        ∃ record, (recorderAfter (ops ++ [op])).trace = (recorderAfter ops).trace ++ [record] ∧
          ∀ a e, record.body ≠ .M a e := by
  rw [recorderAfter_append]
  cases op with
  | malloc size result ip stack => rfl
  | free addr ip stack =>
      simp only [HeapOp.callbacks, List.foldl_cons, List.foldl_nil, Recorder.step,
        Recorder.recordFree]
      split_ifs
      · exact Or.inr ⟨⟨.F addr, ip, stack⟩, rfl, by simp⟩
      · exact Or.inl rfl
  | read addr ip stack =>
      simp only [HeapOp.callbacks, List.foldl_cons, List.foldl_nil, Recorder.step,
        Recorder.recordMemRead, Recorder.recordAccess]
      split_ifs
      · exact Or.inr ⟨⟨.R addr, ip, stack⟩, rfl, by simp⟩
      · exact Or.inl rfl
  | write addr ip stack =>
      simp only [HeapOp.callbacks, List.foldl_cons, List.foldl_nil, Recorder.step,
        Recorder.recordMemWrite, Recorder.recordAccess]
      split_ifs
      · exact Or.inr ⟨⟨.W addr, ip, stack⟩, rfl, by simp⟩
      · exact Or.inl rfl

/-- Only a MALLOC can be refused, and only at a begin still live. -/
lemma acceptedEvent_iff {m : Std.TreeMap UInt64 ℕ} {body : RecordBody} {e : Event}
    (h : body.Matches e) :
    AcceptedEvent m e ↔ ∀ a end', body = .M a end' → a ∉ m := by
  cases body with
  | M a end' =>
      obtain ⟨htype, rfl, rfl⟩ := h
      simp [AcceptedEvent, htype]
  | F a | R a | W a => simp [AcceptedEvent, h.1]

/-- Whatever the program does, its trace is accepted exactly while no failed allocation meets
another. -/
lemma accepted_iff_nullFreedBetween : ∀ {ops : List HeapOp} {events : List Event}, Contract ops →
    MatchTrace (recorderAfter ops).trace events → (Accepted events ↔ NullFreedBetween ops) := by
  intro ops
  induction ops using List.reverseRecOn with
  | nil =>
      intro events _ hmatch
      obtain rfl : events = [] := List.forall₂_nil_left_iff.mp hmatch
      simp [Accepted.nil, NullFreedBetween]
  | append_singleton ops op ih =>
      intro events h hmatch
      obtain ⟨hops, hop⟩ := contract_append.mp h
      rw [nullFreedBetween_append]
      have htrace := trace_append ops op
      -- an operation that fails no allocation is accepted whenever the ones before it are
      have hsilent : op.fails = false → (recorderAfter (ops ++ [op])).trace
          = (recorderAfter ops).trace ∨ (∃ record, (recorderAfter (ops ++ [op])).trace
            = (recorderAfter ops).trace ++ [record] ∧ ∀ a e, record.body ≠ .M a e) →
          (Accepted events ↔ NullFreedBetween ops ∧ (op.fails = true → ¬ NullPending ops)) := by
        rintro hfails (heq | ⟨record, heq, hbody⟩)
        · rw [heq] at hmatch
          simp [ih hops hmatch, hfails]
        · rw [heq] at hmatch
          obtain ⟨events, e, rfl, hmatch, he⟩ := matchTrace_append hmatch
          have hev : AcceptedEvent (live events) e :=
            (acceptedEvent_iff he).mpr fun a end' hM => absurd hM (hbody a end')
          simp [accepted_append, ih hops hmatch, hfails, hev]
      cases op with
      | malloc size result ip stack =>
          rw [htrace] at hmatch
          obtain ⟨events, e, rfl, hmatch, he⟩ := matchTrace_append hmatch
          rw [accepted_append, ih hops hmatch]
          refine and_congr_right fun hfreed => ?_
          have hlive : result ∈ live events ↔
              (result ≠ 0 ∧ result ∈ liveBegins ops) ∨ (result = 0 ∧ NullPending ops) := by
            rw [mem_live_iff hmatch ((ih hops hmatch).mpr hfreed)]
            exact mem_records_iff hops result
          have hev : AcceptedEvent (live events) e ↔ result ∉ live events := by
            rw [acceptedEvent_iff he]
            simp
          rw [hev, hlive]
          rcases hop with h0 | hfresh
          · simp [HeapOp.fails, h0]
          · by_cases h0 : result = 0
            · simp [HeapOp.fails, h0]
            · simp [HeapOp.fails, h0, hfresh]
      | free addr ip stack | read addr ip stack | write addr ip stack => exact hsilent rfl htrace

/-- **When the trace of a program is accepted.**  Under the allocator contract, the index accepts
exactly the runs in which NULL is freed between any two failing allocations.  A `malloc` that fails
is recorded as a block at address zero, which stays active until somebody frees NULL; the second one
there is taken for a duplicate. -/
theorem contract_accepted_iff {ops : List HeapOp} (hcontract : Contract ops) {p : Parsed}
    (hmatch : MatchTrace (recorderAfter ops).trace p.events) (cacheLine : UInt64) :
    (∃ t, (Trace.ofParsed p cacheLine).indexTraceFile = .ok t) ↔ NullFreedBetween ops := by
  rw [← accepted_iff_nullFreedBetween hcontract hmatch]
  constructor
  · rintro ⟨t, ht⟩
    exact (indexTraceFile_eq_ok.mp ht).1
  · exact fun hacc => ⟨_, indexTraceFile_eq_ok.mpr ⟨hacc, rfl⟩⟩

/-- A program that survives a failed allocation and frees the NULL it got before it tries again. -/
def failedAndFreed : List HeapOp :=
  [.malloc 0x7fffffffffffffff 0 0x400100 [], .free 0 0x400200 [],
    .malloc 0x7fffffffffffffff 0 0x400100 []]

/-- The events of its records. -/
def failedAndFreedParsed : Parsed where
  okay := true
  locations := []
  contexts := fun _ => some []
  events := [⟨0, .MALLOC, 0, 0x7fffffffffffffff, []⟩, ⟨1, .FREE, 0, 0x7fffffffffffffff, []⟩,
    ⟨2, .MALLOC, 0, 0x7fffffffffffffff, []⟩]

theorem failedAndFreed_accepted :
    (∃ t, (Trace.ofParsed failedAndFreedParsed 1024).indexTraceFile = .ok t) ↔
      NullFreedBetween failedAndFreed :=
  contract_accepted_iff (by decide) (by decide) 1024

/-- A program that tries twice and fails twice. -/
def failedTwice : List HeapOp :=
  [.malloc 0x7fffffffffffffff 0 0x400100 [], .malloc 0x7fffffffffffffff 0 0x400100 []]

/-- The events of its records. -/
def failedTwiceParsed : Parsed where
  okay := true
  locations := []
  contexts := fun _ => some []
  events := [⟨0, .MALLOC, 0, 0x7fffffffffffffff, []⟩, ⟨1, .MALLOC, 0, 0x7fffffffffffffff, []⟩]

/-- The contract alone is not enough: the second failure is taken for a duplicate. -/
theorem failedTwice_rejected : Contract failedTwice ∧
    MatchTrace (recorderAfter failedTwice).trace failedTwiceParsed.events ∧
    (Trace.ofParsed failedTwiceParsed 1024).indexTraceFile
      = .error (.assertion "Duplicate malloc!") :=
  ⟨by decide, by decide, rfl⟩

end PerVERT
