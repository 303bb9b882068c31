import PerVERT.Core.Fault
import PerVERT.Core.Ring

/-!
# The queue of accepted sockets

`mongoose` hands the sockets that its master thread accepts to the worker threads, in an array that
is used as a ring.  Here is what `produce_socket` and `consume_socket` do while they hold the mutex.

* `mg_context`, `produce_socket`, `consume_socket` — the code; where it would wait, it says so.
* `mg_context.queued` — what is in the queue.
* `mg_context.InOrder` — what holds of the counters; **`produce_socket_spec`** and
  **`consume_socket_spec`** keep it, and reach no assertion.
-/

namespace PerVERT

/-! ## The code -/

/-- `ARRAY_SIZE(ctx->queue)`. -/
def queueSize : ℕ := 20

instance : NeZero queueSize := ⟨by decide⟩

/-- `struct mg_context`, as far as it is about threads. -/
structure mg_context (Socket : Type) where
  stop_flag : ℤ
  num_threads : ℤ
  queue : Vector Socket queueSize
  sq_head : ℤ
  sq_tail : ℤ

/-- `i % ARRAY_SIZE(ctx->queue)`, where the array's size makes a `size_t` of the `int`. -/
def cellOf (i : ℤ) : Fin queueSize := Fin.ofNat queueSize (i % 2 ^ 64).toNat

/-- How a stretch of code under the mutex ends: at a wait, or at its return. -/
inductive UnderMutex (α : Type)
  | waits
  | returns (result : α)
  deriving DecidableEq

/-- The loop that wraps the counters.  Subtracting a `size_t` wraps around as well. -/
def wrapPointers (sq_head sq_tail : ℤ) : ℤ × ℤ :=
  if _ : (queueSize : ℤ) < sq_tail then
    wrapPointers (toInt (sq_head - queueSize)) (toInt (sq_tail - queueSize))
  else (sq_head, sq_tail)
termination_by sq_tail.toNat
decreasing_by
  simp only [queueSize, toInt] at *
  omega

section Code

variable {Socket : Type}

/-- `produce_socket`, from where the mutex is locked. -/
def produce_socket (ctx : mg_context Socket) (sp : Socket) :
    Checked (UnderMutex (mg_context Socket)) := do
  let count ← intAdd ctx.sq_head (-ctx.sq_tail)
  if queueSize ≤ count then pure .waits
  else
    assertC (count < queueSize) "ctx->sq_head - ctx->sq_tail < (int) ARRAY_SIZE(ctx->queue)"
    let cell := cellOf ctx.sq_head
    let sq_head ← intAdd ctx.sq_head 1
    pure (.returns { ctx with queue := ctx.queue.set cell sp cell.isLt, sq_head })

/-- `consume_socket`, from where the mutex is locked; `none` when it returns 0. -/
def consume_socket (ctx : mg_context Socket) :
    Checked (UnderMutex (Option (Socket × mg_context Socket))) :=
  if ctx.sq_head = ctx.sq_tail ∧ ctx.stop_flag = 0 then pure .waits
  else if ctx.stop_flag ≠ 0 then pure (.returns none)
  else do
    assertC (ctx.sq_tail < ctx.sq_head) "ctx->sq_head > ctx->sq_tail"
    let sp := ctx.queue[cellOf ctx.sq_tail]
    let sq_tail ← intAdd ctx.sq_tail 1
    let (sq_head, sq_tail) := wrapPointers ctx.sq_head sq_tail
    pure (.returns (some (sp, { ctx with sq_head, sq_tail })))

end Code

/-! ## What it does -/

/-- The sockets in the queue, in their order. -/
def mg_context.queued {Socket : Type} (ctx : mg_context Socket) : List Socket :=
  ringValues ctx.queue ctx.sq_tail.toNat ctx.sq_head.toNat

/-- The counters between two critical sections. -/
structure mg_context.InOrder {Socket : Type} (ctx : mg_context Socket) : Prop where
  tail_nonneg : 0 ≤ ctx.sq_tail
  tail_le : ctx.sq_tail ≤ queueSize
  le_head : ctx.sq_tail ≤ ctx.sq_head
  head_le : ctx.sq_head ≤ ctx.sq_tail + queueSize

section Queue

variable {Socket : Type} {ctx : mg_context Socket}

lemma cellOf_of_nonneg {i : ℤ} (h0 : 0 ≤ i) (h : i < 2 ^ 64) :
    cellOf i = Fin.ofNat queueSize i.toNat := by
  rw [cellOf, Int.emod_eq_of_lt h0 h]

/-- The number of sockets in the queue. -/
lemma mg_context.InOrder.length (h : ctx.InOrder) :
    (ctx.queued.length : ℤ) = ctx.sq_head - ctx.sq_tail := by
  obtain ⟨h0, -, hle, -⟩ := h
  rw [mg_context.queued, ringValues_length]
  omega

lemma mg_context.InOrder.length_le (h : ctx.InOrder) : ctx.queued.length ≤ queueSize := by
  have hlength := h.length
  have hle := h.head_le
  omega

/-- The counters are lowered when the one at the back has gone once around. -/
lemma wrapPointers_eq {sq_head sq_tail : ℤ} (h : sq_tail ≤ queueSize + 1)
    (hle : sq_tail ≤ sq_head) (hhead : sq_head ≤ sq_tail + queueSize) :
    wrapPointers sq_head sq_tail
      = if (queueSize : ℤ) < sq_tail then (sq_head - queueSize, sq_tail - queueSize)
        else (sq_head, sq_tail) := by
  rw [wrapPointers]
  split_ifs with hwrap
  · have hsmall : (queueSize : ℤ) = 20 := rfl
    rw [toInt_of_inInt (by rw [InInt]; omega), toInt_of_inInt (by rw [InInt]; omega), wrapPointers,
      dif_neg (by omega)]
  · rfl

/-- What `produce_socket` does with a socket. -/
structure Produced (ctx : mg_context Socket) (sp : Socket) (ctx' : mg_context Socket) : Prop where
  inOrder : ctx'.InOrder
  queued : ctx'.queued = ctx.queued ++ [sp]
  stop_flag : ctx'.stop_flag = ctx.stop_flag
  num_threads : ctx'.num_threads = ctx.num_threads

/-- **`produce_socket`** waits while the queue is full, and puts the socket at its end else. -/
lemma produce_socket_spec (h : ctx.InOrder) (sp : Socket) :
    if ctx.queued.length = queueSize then produce_socket ctx sp = .ok .waits
    else ∃ ctx', produce_socket ctx sp = .ok (.returns ctx') ∧ Produced ctx sp ctx' := by
  have hlength := h.length
  have hmost := h.length_le
  obtain ⟨h0, htail, hle, hhead⟩ := h
  have hsize : (queueSize : ℤ) = 20 := rfl
  have hcount : intAdd ctx.sq_head (-ctx.sq_tail) = .ok (ctx.sq_head - ctx.sq_tail) :=
    intAdd_eq_ok.mpr ⟨by rw [InInt]; omega, by omega⟩
  split_ifs with hfull
  · rw [produce_socket, hcount, checked_ok_bind, if_pos (by omega)]
    rfl
  · have hroom : ctx.sq_head - ctx.sq_tail < queueSize := by omega
    have hnext : intAdd ctx.sq_head 1 = .ok (ctx.sq_head + 1) :=
      intAdd_eq_ok.mpr ⟨by rw [InInt]; omega, rfl⟩
    refine ⟨{ ctx with
      queue := ctx.queue.set (cellOf ctx.sq_head) sp (cellOf ctx.sq_head).isLt
      sq_head := ctx.sq_head + 1 }, ?_, ?_⟩
    · rw [produce_socket, hcount, checked_ok_bind, if_neg (by omega),
        assertC_eq_ok.mpr (decide_eq_true hroom), checked_ok_bind, hnext]
      rfl
    · refine ⟨⟨h0, htail, by simp only; omega, by simp only; omega⟩, ?_, rfl, rfl⟩
      have hhead' : (ctx.sq_head + 1).toNat = ctx.sq_head.toNat + 1 := by omega
      simp only [mg_context.queued, hhead']
      have hsmall : ctx.sq_head < 2 ^ 64 := by omega
      simp only [cellOf_of_nonneg (le_trans h0 hle) hsmall]
      exact ringValues_push (by omega) (by omega) sp

/-- What `consume_socket` does when it takes a socket. -/
structure Consumed (ctx : mg_context Socket) (sp : Socket) (ctx' : mg_context Socket) : Prop where
  inOrder : ctx'.InOrder
  queued : ctx.queued = sp :: ctx'.queued
  stop_flag : ctx'.stop_flag = ctx.stop_flag
  num_threads : ctx'.num_threads = ctx.num_threads

/-- **`consume_socket`**: waits while the queue is empty, and takes the first socket else. -/
lemma consume_socket_spec (h : ctx.InOrder) (hrunning : ctx.stop_flag = 0) :
    if ctx.queued = [] then consume_socket ctx = .ok .waits
    else ∃ sp ctx', consume_socket ctx = .ok (.returns (some (sp, ctx'))) ∧
      Consumed ctx sp ctx' := by
  have hlength := h.length
  obtain ⟨h0, htail, hle, hhead⟩ := h
  have hsize : (queueSize : ℤ) = 20 := rfl
  split_ifs with hempty
  · rw [hempty, List.length_nil] at hlength
    rw [consume_socket, if_pos ⟨by omega, hrunning⟩]
    rfl
  · have hlt : ctx.sq_tail < ctx.sq_head := by
      have hpos := List.length_pos_iff.mpr hempty
      omega
    have hnext : intAdd ctx.sq_tail 1 = .ok (ctx.sq_tail + 1) :=
      intAdd_eq_ok.mpr ⟨by rw [InInt]; omega, rfl⟩
    have hwrap := @wrapPointers_eq ctx.sq_head (ctx.sq_tail + 1) (by omega) (by omega) (by omega)
    have hsmall : ctx.sq_tail < 2 ^ 64 := by omega
    have hfirst : ctx.queued = ctx.queue[cellOf ctx.sq_tail]
        :: ringValues ctx.queue (ctx.sq_tail.toNat + 1) ctx.sq_head.toNat := by
      rw [mg_context.queued, ringValues_pop (by omega)]
      simp only [cellOf_of_nonneg h0 hsmall]
    refine ⟨ctx.queue[cellOf ctx.sq_tail], { ctx with
      sq_head := (wrapPointers ctx.sq_head (ctx.sq_tail + 1)).1
      sq_tail := (wrapPointers ctx.sq_head (ctx.sq_tail + 1)).2 }, ?_, ?_⟩
    · rw [consume_socket, if_neg (by omega), if_neg (by omega),
        assertC_eq_ok.mpr (decide_eq_true hlt), checked_ok_bind, hnext]
      rfl
    · rw [hwrap]
      split_ifs with hround
      · refine ⟨⟨?_, ?_, ?_, ?_⟩, ?_, rfl, rfl⟩
        all_goals simp only
        all_goals try omega
        rw [hfirst, mg_context.queued]
        have htail' : (ctx.sq_tail + 1 - queueSize).toNat = ctx.sq_tail.toNat + 1 - queueSize := by
          omega
        have hhead' : (ctx.sq_head - queueSize).toNat = ctx.sq_head.toNat - queueSize := by omega
        simp only [htail', hhead']
        rw [ringValues_wrap (by omega)]
      · refine ⟨⟨?_, ?_, ?_, ?_⟩, ?_, rfl, rfl⟩
        all_goals simp only
        all_goals try omega
        have htail' : (ctx.sq_tail + 1).toNat = ctx.sq_tail.toNat + 1 := by omega
        rw [hfirst, mg_context.queued]
        simp only [htail']

/-- A stopped pool: `consume_socket` returns 0. -/
lemma consume_socket_stopped (h : ctx.stop_flag ≠ 0) :
    consume_socket ctx = .ok (.returns none) := by
  rw [consume_socket, if_neg fun hwait => h hwait.2, if_pos h]
  rfl

end Queue

end PerVERT
