import PerVERT.Core.Transition
import PerVERT.Server.SocketQueue

/-!
# The worker threads

The master thread accepts sockets and puts them into the queue, worker threads take them out.  A
worker that finds it empty sleeps on `sq_full`, the master that finds it full on `sq_empty`;
`mg_stop` raises a flag that all of them look at, without the mutex.

* `Worker`, `Master`, `Pool`, `Pool.step` — where the threads are, and what one of them does next.
  What one does under the mutex is one step, but for the wait of a worker: the flag, and the
  master's broadcast, do not keep out of its way.
* `Pool.Inv` — the invariant; **`Pool.Inv.step`** keeps it.
* **`pool_hands_over`** — every socket goes to one worker, in the order of the accepts.
* **`pool_awake`** — no socket waits for a thread that sleeps.
* **`pool_stopped`** — `mg_stop` returns after the last worker; **`broadcast_suffices_iff`**,
  **`broadcast_missed`** — and when it does not.
-/

namespace PerVERT

/-! ## The threads -/

/-- Where a worker is. -/
inductive Worker (Socket : Type)
  /-- At the head of its loop. -/
  | looping
  /-- In `consume_socket`, before it has the mutex, at first or again. -/
  | locking
  /-- In `consume_socket` with the mutex, about to wait. -/
  | holding
  /-- In `pthread_cond_wait(&ctx->sq_full, &ctx->mutex)`. -/
  | waiting
  | serving (sp : Socket)
  /-- Behind its loop. -/
  | leaving
  | exited
  deriving DecidableEq

/-- Where the master is. -/
inductive Master (Socket : Type)
  /-- At the head of its loop. -/
  | looping
  /-- At the listening sockets that are ready. -/
  | selecting
  /-- In `produce_socket`, before it has the mutex. -/
  | producing (sp : Socket)
  /-- In `pthread_cond_wait(&ctx->sq_empty, &ctx->mutex)`. -/
  | waiting (sp : Socket)
  /-- Behind its loop. -/
  | broadcasting
  /-- Behind the broadcast, before it has the mutex. -/
  | joining
  /-- In `pthread_cond_wait(&ctx->cond, &ctx->mutex)`. -/
  | sleeping
  /-- It has told `mg_stop` that it is done. -/
  | gone
  deriving DecidableEq

section Tests

variable {Socket : Type}

def Worker.isLocking : Worker Socket → Bool
  | locking => true
  | _ => false

def Worker.isWaiting : Worker Socket → Bool
  | waiting => true
  | _ => false

def Worker.isHolding : Worker Socket → Bool
  | holding => true
  | _ => false

def Worker.isAlive : Worker Socket → Bool
  | exited => false
  | _ => true

/-- A worker that waits for `sq_full` goes for the mutex again. -/
def Worker.woken : Worker Socket → Worker Socket
  | waiting => locking
  | w => w

/-- The socket that was accepted but is not in the queue. -/
def Master.offered : Master Socket → List Socket
  | producing sp => [sp]
  | waiting sp => [sp]
  | _ => []

/-- The master has left its loop. -/
def Master.isStopping : Master Socket → Bool
  | broadcasting => true
  | joining => true
  | sleeping => true
  | gone => true
  | _ => false

/-- `pthread_cond_signal(&ctx->sq_empty)`. -/
def Master.roomMade : Master Socket → Master Socket
  | waiting sp => producing sp
  | m => m

/-- `pthread_cond_signal(&ctx->cond)`. -/
def Master.threadEnded : Master Socket → Master Socket
  | sleeping => joining
  | m => m

end Tests

/-- A server that runs. -/
structure Pool (Socket : Type) where
  ctx : mg_context Socket
  master : Master Socket
  workers : List (Worker Socket)
  /-- The fault that ended the process. -/
  aborted : Option Fault
  /-- The sockets accepted so far. -/
  accepted : List Socket
  /-- The sockets taken so far, with the worker that took each. -/
  taken : List (ℕ × Socket)

/-- One step.  A thread that waits may wake up by itself. -/
inductive PoolAction (Socket : Type)
  /-- `mg_stop` raises the flag. -/
  | stop
  /-- A listening socket is ready, and the client allowed. -/
  | accept (sp : Socket)
  /-- The master goes on; when it signals `sq_full`, this is the worker that wakes up. -/
  | master (woken : Option ℕ)
  | worker (i : ℕ)

section Steps

variable {Socket : Type}

/-- `mg_start` with `n` workers. -/
def Pool.start (blank : Socket) (n : ℕ) : Pool Socket where
  ctx := ⟨0, n, Vector.replicate queueSize blank, 0, 0⟩
  master := .looping
  workers := List.replicate n .looping
  aborted := none
  accepted := []
  taken := []

/-- The one who is about to wait still has the mutex. -/
def Pool.mutexFree (s : Pool Socket) : Bool := !s.workers.any Worker.isHolding

/-- `pthread_cond_signal(&ctx->sq_full)` wakes one of those that wait, if there are any. -/
def signal (workers : List (Worker Socket)) : Option ℕ → Option (List (Worker Socket))
  | none => if workers.any Worker.isWaiting then none else some workers
  | some i =>
      if workers[i]?.any Worker.isWaiting then some (workers.set i .locking) else none

def Pool.setWorker (s : Pool Socket) (i : ℕ) (w : Worker Socket) : Pool Socket :=
  { s with workers := s.workers.set i w }

def Pool.setMaster (s : Pool Socket) (m : Master Socket) : Pool Socket := { s with master := m }

def Pool.abort (s : Pool Socket) (f : Fault) : Pool Socket := { s with aborted := some f }

/-- The end of `worker_thread`, from where the mutex is locked. -/
def leave (ctx : mg_context Socket) : Checked (mg_context Socket) := do
  let num_threads ← intAdd ctx.num_threads (-1)
  assertC (0 ≤ num_threads) "ctx->num_threads >= 0"
  pure { ctx with num_threads }

/-- The next step of `master_thread`. -/
def master_thread (s : Pool Socket) (woken : Option ℕ) : Option (Pool Socket) :=
  match s.master with
  | .looping => some (s.setMaster (if s.ctx.stop_flag = 0 then .selecting else .broadcasting))
  | .selecting => some (s.setMaster .looping)
  | .producing sp =>
      if s.mutexFree then
        match produce_socket s.ctx sp with
        | .error f => some (s.abort f)
        | .ok .waits => some (s.setMaster (.waiting sp))
        | .ok (.returns ctx) => (signal s.workers woken).map fun workers =>
            { s with ctx, workers, master := .selecting }
      else none
  | .waiting sp => some (s.setMaster (.producing sp))
  | .broadcasting =>
      some { s with workers := s.workers.map Worker.woken, master := .joining }
  | .joining =>
      if s.mutexFree then
        if 0 < s.ctx.num_threads then some (s.setMaster .sleeping)
        else some { s with ctx := { s.ctx with stop_flag := 2 }, master := .gone }
      else none
  | .sleeping => some (s.setMaster .joining)
  | .gone => none

/-- The next step of `worker_thread`. -/
def worker_thread (s : Pool Socket) (i : ℕ) : Worker Socket → Option (Pool Socket)
  | .looping => some (s.setWorker i (if s.ctx.stop_flag = 0 then .locking else .leaving))
  | .locking =>
      if s.mutexFree then
        match consume_socket s.ctx with
        | .error f => some (s.abort f)
        | .ok .waits => some (s.setWorker i .holding)
        | .ok (.returns none) => some (s.setWorker i .leaving)
        | .ok (.returns (some (sp, ctx))) =>
            some { s with
              ctx
              workers := s.workers.set i (.serving sp)
              master := s.master.roomMade
              taken := s.taken ++ [(i, sp)] }
      else none
  | .holding => some (s.setWorker i .waiting)
  | .waiting => some (s.setWorker i .locking)
  | .serving _ => some (s.setWorker i .looping)
  | .leaving =>
      if s.mutexFree then
        match leave s.ctx with
        | .error f => some (s.abort f)
        | .ok ctx =>
            some { s with
              ctx
              workers := s.workers.set i .exited
              master := s.master.threadEnded }
      else none
  | .exited => none

/-- What can happen next. -/
def Pool.step (s : Pool Socket) (a : PoolAction Socket) : Option (Pool Socket) :=
  if s.aborted.isSome then none
  else
    match a with
    | .stop =>
        if s.ctx.stop_flag = 0 then some { s with ctx := { s.ctx with stop_flag := 1 } } else none
    | .accept sp =>
        match s.master with
        | .selecting => some { s with master := .producing sp, accepted := s.accepted ++ [sp] }
        | _ => none
    | .master woken => master_thread s woken
    | .worker i => s.workers[i]?.bind (worker_thread s i)

end Steps

/-! ## The invariant -/

/-- The socket that a worker took last. -/
def Pool.lastTaken {Socket : Type} (s : Pool Socket) (i : ℕ) : Option Socket :=
  ((s.taken.filter fun t => t.1 = i).getLast?).map Prod.snd

/-- What holds between two steps. -/
structure Pool.Inv {Socket : Type} (s : Pool Socket) : Prop where
  running : s.aborted = none
  counters : s.ctx.InOrder
  order : s.accepted = s.taken.map Prod.snd ++ s.ctx.queued ++ s.master.offered
  served : ∀ (i : ℕ) sp, s.workers[i]? = some (.serving sp) → s.lastTaken i = some sp
  full : ∀ sp, s.master = .waiting sp → s.ctx.queued.length = queueSize
  /-- Nothing was put into the queue since the test. -/
  empty : .holding ∈ s.workers → s.ctx.queued = []
  /-- Each signal has woken a worker, and each worker that was woken takes a socket. -/
  awake : s.ctx.stop_flag = 0 → .waiting ∈ s.workers →
    s.ctx.queued.length ≤ s.workers.countP Worker.isLocking
  few : s.workers.length < 2 ^ 31
  alive : s.ctx.num_threads = s.workers.countP Worker.isAlive
  sleeping : s.master = .sleeping → 0 < s.ctx.num_threads
  stopping : s.master.isStopping = true → s.ctx.stop_flag ≠ 0
  ended : s.ctx.stop_flag = 2 → s.ctx.num_threads = 0

section Inv

variable {Socket : Type} {s s' : Pool Socket} {i : ℕ} {w w' : Worker Socket}

lemma countP_set_add {workers : List (Worker Socket)} (p : Worker Socket → Bool)
    (h : workers[i]? = some w) (w' : Worker Socket) :
    (workers.set i w').countP p + (if p w then 1 else 0)
      = workers.countP p + (if p w' then 1 else 0) := by
  obtain ⟨hi, rfl⟩ := List.getElem?_eq_some_iff.mp h
  have hle := @List.boole_getElem_le_countP _ p workers i hi
  rw [List.countP_set hi]
  omega

/-- Whoever is found there was there before, if it is not the one that was put there. -/
lemma getElem?_of_set {workers : List (Worker Socket)} {j : ℕ} (hne : w' ≠ w)
    (h : (workers.set i w')[j]? = some w) : workers[j]? = some w := by
  rw [List.getElem?_set] at h
  split_ifs at h
  · exact absurd (Option.some.inj h) hne
  · exact h

lemma mutexFree_iff : s.mutexFree = true ↔ Worker.holding ∉ s.workers := by
  have hholding : ∀ w : Worker Socket, w.isHolding = true ↔ w = .holding := by
    intro w
    cases w <;> simp [Worker.isHolding]
  simp only [Pool.mutexFree, Bool.not_eq_true', List.any_eq_false, hholding]
  exact ⟨fun h hmem => h _ hmem rfl, fun h w hw heq => h (heq ▸ hw)⟩

lemma start_inv (blank : Socket) {n : ℕ} (h : n < 2 ^ 31) : (Pool.start blank n).Inv := by
  constructor
  · rfl
  · exact ⟨le_refl _, Int.natCast_nonneg queueSize, le_refl _, Int.natCast_nonneg queueSize⟩
  · rfl
  · exact fun i sp hsp => nomatch List.eq_of_mem_replicate (List.mem_of_getElem? hsp)
  · exact fun sp hsp => nomatch hsp
  · exact fun hmem => nomatch List.eq_of_mem_replicate hmem
  · exact fun _ hmem => nomatch List.eq_of_mem_replicate hmem
  · simpa [Pool.start] using h
  · simp [Pool.start, List.countP_replicate, Worker.isAlive]
  · exact fun hsleeping => nomatch hsleeping
  · exact fun hstopping => nomatch hstopping
  · exact fun hended => nomatch hended

/-- A worker goes on without the queue. -/
lemma Pool.Inv.setWorker (h : s.Inv) (hget : s.workers[i]? = some w)
    (halive : w'.isAlive = w.isAlive) (hserving : ∀ sp, w' ≠ .serving sp)
    (hempty : w' = .holding ∨ w' = .waiting → s.ctx.queued = [])
    (hlocking : s.ctx.stop_flag = 0 → w.isLocking = true → w' = .holding) :
    (s.setWorker i w').Inv := by
  have hcountAlive := countP_set_add Worker.isAlive hget w'
  rw [halive] at hcountAlive
  constructor
  · exact h.running
  · exact h.counters
  · exact h.order
  · exact fun j sp hj => h.served j sp (getElem?_of_set (hserving sp) hj)
  · exact h.full
  · intro hmem
    rcases List.mem_or_eq_of_mem_set hmem with hmem | heq
    · exact h.empty hmem
    · exact hempty (Or.inl heq.symm)
  · intro hrunning hmem
    by_cases hqueue : s.ctx.queued = []
    · exact le_of_eq_of_le (congrArg List.length hqueue) (Nat.zero_le _)
    · have hcount := countP_set_add Worker.isLocking hget w'
      have hwaiting : .waiting ∈ s.workers := by
        rcases List.mem_or_eq_of_mem_set hmem with hmem | heq
        · exact hmem
        · exact absurd (hempty (Or.inr heq.symm)) hqueue
      have hawake := h.awake hrunning hwaiting
      have hnot : w.isLocking = false := by
        by_contra hne
        exact hqueue (hempty (Or.inl (hlocking hrunning (by simpa using hne))))
      rw [hnot] at hcount
      simp only [Pool.setWorker]
      simp at hcount
      omega
  · simpa [Pool.setWorker] using h.few
  · have halive' := h.alive
    simp only [Pool.setWorker]
    omega
  · exact h.sleeping
  · exact h.stopping
  · exact h.ended

/-- The master goes on without the queue. -/
lemma Pool.Inv.setMaster (h : s.Inv) {m : Master Socket} (hoffered : m.offered = s.master.offered)
    (hfull : ∀ sp, m = .waiting sp → s.ctx.queued.length = queueSize)
    (hsleeping : m = .sleeping → 0 < s.ctx.num_threads)
    (hstopping : m.isStopping = true → s.ctx.stop_flag ≠ 0) : (s.setMaster m).Inv where
  running := h.running
  counters := h.counters
  order := h.order.trans (by rw [← hoffered]; rfl)
  served := h.served
  full := hfull
  empty := h.empty
  awake := h.awake
  few := h.few
  alive := h.alive
  sleeping := hsleeping
  stopping := hstopping
  ended := h.ended

lemma isWaiting_iff : w.isWaiting = true ↔ w = .waiting := by
  cases w <;> simp [Worker.isWaiting]

/-- Who is woken by a signal. -/
lemma signal_cases {workers workers' : List (Worker Socket)} {woken : Option ℕ}
    (h : signal workers woken = some workers') :
    (workers' = workers ∧ Worker.waiting ∉ workers) ∨
      ∃ i : ℕ, workers[i]? = some .waiting ∧ workers' = workers.set i .locking := by
  cases woken with
  | none =>
      simp only [signal] at h
      split_ifs at h with hany
      refine Or.inl ⟨(Option.some.inj h).symm, fun hmem => hany ?_⟩
      exact List.any_eq_true.mpr ⟨_, hmem, rfl⟩
  | some i =>
      simp only [signal] at h
      split_ifs at h with hany
      cases hget : workers[i]? with
      | none => simp [hget] at hany
      | some w =>
          rw [hget, Option.any_some, isWaiting_iff] at hany
          exact Or.inr ⟨i, hget.trans (congrArg some hany), (Option.some.inj h).symm⟩

/-- **The master puts a socket into the queue**, and wakes a worker that waits for one. -/
lemma Pool.Inv.produced (h : s.Inv) {sp : Socket} {ctx : mg_context Socket}
    {workers : List (Worker Socket)} {woken : Option ℕ} (hmaster : s.master = .producing sp)
    (hfree : s.mutexFree = true) (hproduced : Produced s.ctx sp ctx)
    (hsignal : signal s.workers woken = some workers) :
    Pool.Inv { s with ctx, workers, master := .selecting } := by
  have hnone : Worker.holding ∉ s.workers := mutexFree_iff.mp hfree
  obtain ⟨hcounters, hqueued, hflag, hthreads⟩ := hproduced
  have hkeeps : workers.length = s.workers.length ∧
      workers.countP Worker.isAlive = s.workers.countP Worker.isAlive ∧
      ∀ w ≠ .locking, ∀ j : ℕ, workers[j]? = some w → s.workers[j]? = some w := by
    rcases signal_cases hsignal with ⟨rfl, -⟩ | ⟨i, hi, rfl⟩
    · exact ⟨rfl, rfl, fun w _ j hj => hj⟩
    · have hcount := countP_set_add Worker.isAlive hi .locking
      exact ⟨List.length_set, by simpa [Worker.isAlive] using hcount,
        fun w hw j hj => getElem?_of_set hw.symm hj⟩
  constructor
  · exact h.running
  · exact hcounters
  · simp only [h.order, hmaster, hqueued, Master.offered, List.append_nil, List.append_assoc]
  · exact fun j sp hj => h.served j sp (hkeeps.2.2 _ (by simp) j hj)
  · exact fun sp hsp => nomatch hsp
  · intro hmem
    obtain ⟨j, hj⟩ := List.getElem?_of_mem hmem
    exact absurd (List.mem_of_getElem? (hkeeps.2.2 _ (by simp) j hj)) hnone
  · intro hrunning hmem
    rw [hflag] at hrunning
    rcases signal_cases hsignal with ⟨rfl, hnobody⟩ | ⟨i, hi, rfl⟩
    · exact absurd hmem hnobody
    · have hcount := countP_set_add Worker.isLocking hi .locking
      have hawake := h.awake hrunning (List.mem_of_getElem? hi)
      simp only [Worker.isLocking, if_true, Bool.false_eq_true, if_false] at hcount
      simp only [hqueued, List.length_append, List.length_singleton]
      omega
  · simpa only [hkeeps.1] using h.few
  · simpa only [hthreads, hkeeps.2.1] using h.alive
  · exact fun hsleeping => nomatch hsleeping
  · exact fun hstopping => nomatch hstopping
  · simpa only [hflag, hthreads] using h.ended

/-- **A worker takes a socket** from the queue, and wakes the master if it waits for room. -/
lemma Pool.Inv.consumed (h : s.Inv) {sp : Socket} {ctx : mg_context Socket}
    (hget : s.workers[i]? = some .locking) (hfree : s.mutexFree = true)
    (hconsumed : Consumed s.ctx sp ctx) :
    Pool.Inv { s with
      ctx
      workers := s.workers.set i (.serving sp)
      master := s.master.roomMade
      taken := s.taken ++ [(i, sp)] } := by
  have hnone : Worker.holding ∉ s.workers := mutexFree_iff.mp hfree
  obtain ⟨hcounters, hqueued, hflag, hthreads⟩ := hconsumed
  have hoffered : s.master.roomMade.offered = s.master.offered := by
    cases s.master <;> rfl
  constructor
  · exact h.running
  · exact hcounters
  · simp only [h.order, hqueued, hoffered, List.map_append, List.map_cons, List.map_nil,
      List.append_assoc, List.nil_append, List.cons_append]
  · intro j sp' hj
    by_cases hji : j = i
    · subst hji
      rw [List.getElem?_set_self (lt_of_getElem? hget)] at hj
      cases hj
      simp [Pool.lastTaken, List.filter_append]
    · rw [List.getElem?_set_ne (Ne.symm hji)] at hj
      have hlast := h.served j sp' hj
      simpa [Pool.lastTaken, List.filter_append, Ne.symm hji] using hlast
  · intro sp hsp
    cases hmaster : s.master <;> simp [hmaster, Master.roomMade] at hsp
  · intro hmem
    rcases List.mem_or_eq_of_mem_set hmem with hmem | heq
    · exact absurd hmem hnone
    · cases heq
  · intro hrunning hmem
    rw [hflag] at hrunning
    have hwaiting : .waiting ∈ s.workers := by
      rcases List.mem_or_eq_of_mem_set hmem with hmem | heq
      · exact hmem
      · cases heq
    have hcount := countP_set_add Worker.isLocking hget (.serving sp)
    have hawake := h.awake hrunning hwaiting
    simp only [Worker.isLocking, if_true, Bool.false_eq_true, if_false] at hcount
    rw [hqueued, List.length_cons] at hawake
    simp only
    omega
  · simpa using h.few
  · have hcount := countP_set_add Worker.isAlive hget (.serving sp)
    simp only [Worker.isAlive, if_true, Nat.add_right_cancel_iff] at hcount
    simpa only [hthreads, hcount] using h.alive
  · intro hsleeping
    cases hmaster : s.master <;> simp [hmaster, Master.roomMade] at hsleeping
    simpa only [hthreads] using h.sleeping hmaster
  · intro hstopping
    rw [hflag]
    cases hmaster : s.master <;> simp [hmaster, Master.roomMade, Master.isStopping] at hstopping
    all_goals exact h.stopping (by rw [hmaster]; rfl)
  · simpa only [hflag, hthreads] using h.ended

/-- **A worker is done**, and wakes the master if it waits for the workers. -/
lemma Pool.Inv.left (h : s.Inv) (hget : s.workers[i]? = some .leaving)
    (hfree : s.mutexFree = true) : ∃ ctx, leave s.ctx = .ok ctx ∧ ctx.stop_flag = s.ctx.stop_flag ∧
      Pool.Inv { s with
        ctx
        workers := s.workers.set i .exited
        master := s.master.threadEnded } := by
  have hnone : Worker.holding ∉ s.workers := mutexFree_iff.mp hfree
  have hcount := countP_set_add Worker.isAlive hget .exited
  simp only [Worker.isAlive, if_true, Bool.false_eq_true, if_false] at hcount
  have halive := h.alive
  have hmost : s.workers.countP Worker.isAlive ≤ s.workers.length := List.countP_le_length
  have hfew := h.few
  have hnext : intAdd s.ctx.num_threads (-1) = .ok (s.ctx.num_threads - 1) :=
    intAdd_eq_ok.mpr ⟨by rw [InInt]; omega, by omega⟩
  refine ⟨{ s.ctx with num_threads := s.ctx.num_threads - 1 }, ?_, rfl, ?_⟩
  · rw [leave, hnext, checked_ok_bind,
      assertC_eq_ok.mpr (decide_eq_true (by omega : 0 ≤ s.ctx.num_threads - 1))]
    rfl
  constructor
  · exact h.running
  · exact ⟨h.counters.1, h.counters.2, h.counters.3, h.counters.4⟩
  · have hoffered : s.master.threadEnded.offered = s.master.offered := by
      cases s.master <;> rfl
    exact h.order.trans (by rw [← hoffered]; rfl)
  · exact fun j sp hj => h.served j sp (getElem?_of_set (by simp) hj)
  · intro sp hsp
    cases hmaster : s.master <;> simp [hmaster, Master.threadEnded] at hsp
    exact h.full _ hmaster
  · intro hmem
    rcases List.mem_or_eq_of_mem_set hmem with hmem | heq
    · exact absurd hmem hnone
    · cases heq
  · intro hrunning hmem
    have hwaiting : .waiting ∈ s.workers := by
      rcases List.mem_or_eq_of_mem_set hmem with hmem | heq
      · exact hmem
      · cases heq
    have hlocking := countP_set_add Worker.isLocking hget .exited
    simp only [Worker.isLocking, Bool.false_eq_true, if_false, Nat.add_zero] at hlocking
    simp only [hlocking]
    exact h.awake hrunning hwaiting
  · simpa using hfew
  · simp only
    omega
  · intro hsleeping
    cases hmaster : s.master <;> simp [hmaster, Master.threadEnded] at hsleeping
  · intro hstopping
    cases hmaster : s.master <;> simp [hmaster, Master.threadEnded, Master.isStopping] at hstopping
    all_goals exact h.stopping (by rw [hmaster]; rfl)
  · intro hended
    have hzero := h.ended hended
    omega

lemma woken_eq_iff (hne : w' ≠ .locking) : w.woken = w' ↔ w = w' ∧ w ≠ .waiting := by
  cases w <;> simp [Worker.woken, eq_comm, hne]

/-- **The broadcast** wakes all workers that wait. -/
lemma Pool.Inv.broadcast (h : s.Inv) (hmaster : s.master = .broadcasting) :
    Pool.Inv { s with
      workers := s.workers.map Worker.woken
      master := .joining } := by
  have halive : Worker.isAlive ∘ Worker.woken = (Worker.isAlive : Worker Socket → Bool) := by
    funext w
    cases w <;> rfl
  constructor
  · exact h.running
  · exact h.counters
  · exact h.order.trans (by rw [hmaster]; rfl)
  · intro j sp hj
    rw [List.getElem?_map] at hj
    obtain ⟨w, hw, hwoken⟩ := Option.map_eq_some_iff.mp hj
    rw [((woken_eq_iff (by simp)).mp hwoken).1] at hw
    exact h.served j sp hw
  · exact fun sp hsp => nomatch hsp
  · intro hmem
    obtain ⟨w, hw, hwoken⟩ := List.mem_map.mp hmem
    rw [((woken_eq_iff (by simp)).mp hwoken).1] at hw
    exact h.empty hw
  · intro _ hmem
    obtain ⟨w, hw, hwoken⟩ := List.mem_map.mp hmem
    obtain ⟨heq, hne⟩ := (woken_eq_iff (by simp)).mp hwoken
    exact absurd heq hne
  · simpa using h.few
  · simpa only [List.countP_map, halive] using h.alive
  · exact fun hsleeping => nomatch hsleeping
  · exact fun _ => h.stopping (by rw [hmaster]; rfl)
  · exact h.ended

/-- **A socket is accepted.** -/
lemma Pool.Inv.accept (h : s.Inv) (hmaster : s.master = .selecting) (sp : Socket) :
    Pool.Inv { s with master := .producing sp, accepted := s.accepted ++ [sp] } where
  running := h.running
  counters := h.counters
  order := by simp only [h.order, hmaster, Master.offered, List.append_nil]
  served := h.served
  full _ hsp := nomatch hsp
  empty := h.empty
  awake := h.awake
  few := h.few
  alive := h.alive
  sleeping hsleeping := nomatch hsleeping
  stopping hstopping := nomatch hstopping
  ended := h.ended

/-- The flag is raised. -/
lemma Pool.Inv.setFlag (h : s.Inv) {stop_flag : ℤ} {m : Master Socket}
    (hmaster : m = s.master ∨ m = .gone ∧ s.master = .joining) (hraised : stop_flag ≠ 0)
    (hended : stop_flag = 2 → s.ctx.num_threads = 0) :
    Pool.Inv { s with ctx := { s.ctx with stop_flag }, master := m } where
  running := h.running
  counters := ⟨h.counters.1, h.counters.2, h.counters.3, h.counters.4⟩
  order := by
    rcases hmaster with rfl | ⟨rfl, hmaster⟩
    · exact h.order
    · exact h.order.trans (by rw [hmaster]; rfl)
  served := h.served
  full := by
    rcases hmaster with rfl | ⟨rfl, -⟩
    · exact h.full
    · exact fun sp hsp => nomatch hsp
  empty := h.empty
  awake hrunning := absurd hrunning hraised
  few := h.few
  alive := h.alive
  sleeping := by
    rcases hmaster with rfl | ⟨rfl, -⟩
    · exact h.sleeping
    · exact fun hsleeping => nomatch hsleeping
  stopping _ := hraised
  ended := hended

/-- **A step of the master.** -/
lemma Pool.Inv.master (h : s.Inv) {woken : Option ℕ} (hstep : master_thread s woken = some s') :
    s'.Inv := by
  rw [master_thread] at hstep
  cases hmaster : s.master with
  | looping =>
      simp only [hmaster, Option.some.injEq] at hstep
      subst hstep
      refine h.setMaster ?_ ?_ ?_ ?_
      all_goals split_ifs
      all_goals simp_all [Master.offered, Master.isStopping]
  | selecting =>
      simp only [hmaster, Option.some.injEq] at hstep
      subst hstep
      exact h.setMaster (by rw [hmaster]; rfl) (fun sp hsp => nomatch hsp)
        (fun hsleeping => nomatch hsleeping) fun hstopping => nomatch hstopping
  | producing sp =>
      simp only [hmaster] at hstep
      split_ifs at hstep with hfree
      have hspec := produce_socket_spec h.counters sp
      split_ifs at hspec with hfull
      · simp only [hspec, Option.some.injEq] at hstep
        subst hstep
        exact h.setMaster (by rw [hmaster]; rfl) (fun _ _ => hfull)
          (fun hsleeping => nomatch hsleeping) fun hstopping => nomatch hstopping
      · obtain ⟨ctx, hctx, hproduced⟩ := hspec
        simp only [hctx, Option.map_eq_some_iff] at hstep
        obtain ⟨workers, hsignal, rfl⟩ := hstep
        exact h.produced hmaster hfree hproduced hsignal
  | waiting sp =>
      simp only [hmaster, Option.some.injEq] at hstep
      subst hstep
      exact h.setMaster (by rw [hmaster]; rfl) (fun sp hsp => nomatch hsp)
        (fun hsleeping => nomatch hsleeping) fun hstopping => nomatch hstopping
  | broadcasting =>
      simp only [hmaster, Option.some.injEq] at hstep
      subst hstep
      exact h.broadcast hmaster
  | joining =>
      simp only [hmaster] at hstep
      split_ifs at hstep with hfree hthreads
      · cases hstep
        exact h.setMaster (by rw [hmaster]; rfl) (fun sp hsp => nomatch hsp) (fun _ => hthreads)
          fun _ => h.stopping (by rw [hmaster]; rfl)
      · cases hstep
        have halive := h.alive
        exact h.setFlag (Or.inr ⟨rfl, hmaster⟩) (by decide) fun _ => by omega
  | sleeping =>
      simp only [hmaster, Option.some.injEq] at hstep
      subst hstep
      exact h.setMaster (by rw [hmaster]; rfl) (fun sp hsp => nomatch hsp)
        (fun hsleeping => nomatch hsleeping) fun _ => h.stopping (by rw [hmaster]; rfl)
  | gone => simp [hmaster] at hstep

/-- **A step of a worker.** -/
lemma Pool.Inv.worker (h : s.Inv) (hget : s.workers[i]? = some w)
    (hstep : worker_thread s i w = some s') : s'.Inv := by
  cases w with
  | looping =>
      cases hstep
      refine h.setWorker hget ?_ ?_ ?_ fun _ hlocking => nomatch hlocking
      all_goals split_ifs
      all_goals simp [Worker.isAlive]
  | locking =>
      simp only [worker_thread] at hstep
      split_ifs at hstep with hfree
      by_cases hrunning : s.ctx.stop_flag = 0
      · have hspec := consume_socket_spec h.counters hrunning
        split_ifs at hspec with hempty
        · simp only [hspec, Option.some.injEq] at hstep
          subst hstep
          exact h.setWorker hget rfl (by simp) (fun _ => hempty) fun _ _ => rfl
        · obtain ⟨sp, ctx, hctx, hconsumed⟩ := hspec
          simp only [hctx, Option.some.injEq] at hstep
          subst hstep
          exact h.consumed hget hfree hconsumed
      · simp only [consume_socket_stopped hrunning, Option.some.injEq] at hstep
        subst hstep
        exact h.setWorker hget rfl (by simp) (by simp) fun hzero => absurd hzero hrunning
  | holding =>
      cases hstep
      exact h.setWorker hget rfl (by simp) (fun _ => h.empty (List.mem_of_getElem? hget))
        fun _ hlocking => nomatch hlocking
  | waiting =>
      cases hstep
      exact h.setWorker hget rfl (by simp) (by simp) fun _ hlocking => nomatch hlocking
  | serving sp =>
      cases hstep
      exact h.setWorker hget rfl (by simp) (by simp) fun _ hlocking => nomatch hlocking
  | leaving =>
      simp only [worker_thread] at hstep
      split_ifs at hstep with hfree
      obtain ⟨ctx, hctx, -, hinv⟩ := h.left hget hfree
      simp only [hctx, Option.some.injEq] at hstep
      subst hstep
      exact hinv
  | exited => cases hstep

/-- **Every step keeps the invariant.** -/
lemma Pool.Inv.step (h : s.Inv) {a : PoolAction Socket} (hstep : s.step a = some s') : s'.Inv := by
  have hrunning : s.aborted.isSome = false := by rw [h.running, Option.isSome_none]
  cases a with
  | stop =>
      simp only [Pool.step, hrunning, Bool.false_eq_true, if_false] at hstep
      split_ifs at hstep with hzero
      cases hstep
      exact h.setFlag (Or.inl rfl) one_ne_zero fun htwo : (1 : ℤ) = 2 => absurd htwo (by decide)
  | accept sp =>
      simp only [Pool.step, hrunning, Bool.false_eq_true, if_false] at hstep
      split at hstep
      · rename_i hmaster
        cases hstep
        exact h.accept hmaster sp
      · cases hstep
  | master woken =>
      simp only [Pool.step, hrunning, Bool.false_eq_true, if_false] at hstep
      exact h.master hstep
  | worker i =>
      simp only [Pool.step, hrunning, Bool.false_eq_true, if_false] at hstep
      obtain ⟨w, hw, hstep⟩ := Option.bind_eq_some_iff.mp hstep
      exact h.worker hw hstep

end Inv

/-! ## Runs -/

section Runs

variable {Socket : Type} {blank : Socket} {n : ℕ} {acts : List (PoolAction Socket)}
  {s s' : Pool Socket} {i : ℕ}

lemma inv_of_run (hn : n < 2 ^ 31) (hrun : run Pool.step (Pool.start blank n) acts = some s) :
    s.Inv :=
  @run_induction _ _ Pool.step (Pool.start blank n) (fun _ s => s.Inv) (start_inv blank hn)
    (fun _ h hstep => h.step hstep) _ _ hrun

/-- **The sockets are handed over in order.**  In every run no assertion fails and no counter
overflows; the sockets that were accepted are those that workers took, those in the queue, at most
as many as it has cells, and the one that the master is about to put there; and the socket that a
worker serves is the one it took last. -/
theorem pool_hands_over (hn : n < 2 ^ 31)
    (hrun : run Pool.step (Pool.start blank n) acts = some s) :
    s.aborted = none ∧
      s.accepted = s.taken.map Prod.snd ++ s.ctx.queued ++ s.master.offered ∧
      s.ctx.queued.length ≤ queueSize ∧
      ∀ (i : ℕ) sp, s.workers[i]? = some (.serving sp) → s.lastTaken i = some sp := by
  have h := inv_of_run hn hrun
  exact ⟨h.running, h.order, h.counters.length_le, h.served⟩

/-- Two workers go to sleep, two sockets wake them up, and one is taken. -/
def twoSockets : List (PoolAction ℕ) :=
  [.worker 0, .worker 0, .worker 0, .worker 1, .worker 1, .worker 1, .master none, .accept 7,
    .master (some 1), .accept 8, .master (some 0), .worker 1]

theorem twoSockets_handed_over : ∃ s, run Pool.step (Pool.start 0 2) twoSockets = some s ∧
    s.aborted = none ∧ s.accepted = s.taken.map Prod.snd ++ s.ctx.queued ++ s.master.offered ∧
    s.ctx.queued.length ≤ queueSize ∧
    ∀ (i : ℕ) sp, s.workers[i]? = some (.serving sp) → s.lastTaken i = some sp := by
  obtain ⟨s, hs⟩ := Option.isSome_iff_exists.mp
    (by decide +kernel : (run Pool.step (Pool.start 0 2) twoSockets).isSome = true)
  exact ⟨s, hs, pool_hands_over (by decide) hs⟩

/-- **No socket waits for a thread that sleeps**, in any state that the threads can reach, however
they are scheduled and whatever wakes them.  The master sleeps only while the queue is full.  While
the server is not stopped and a worker sleeps, for each socket in the queue there is a worker on its
way to it, so a signal that finds nobody asleep has not been lost. -/
theorem pool_awake (hn : n < 2 ^ 31)
    (hrun : run Pool.step (Pool.start blank n) acts = some s) :
    (∀ sp, s.master = .waiting sp → s.ctx.queued.length = queueSize) ∧
      (s.ctx.stop_flag = 0 → .waiting ∈ s.workers →
        s.ctx.queued.length ≤ s.workers.countP Worker.isLocking) := by
  have h := inv_of_run hn hrun
  exact ⟨h.full, h.awake⟩

/-- The first of two sockets has come, while both workers sleep. -/
theorem firstSocket_awake :
    ∃ s, run Pool.step (Pool.start 0 2) (twoSockets.take 9) = some s ∧
      (∀ sp, s.master = .waiting sp → s.ctx.queued.length = queueSize) ∧
      (s.ctx.stop_flag = 0 → .waiting ∈ s.workers →
        s.ctx.queued.length ≤ s.workers.countP Worker.isLocking) := by
  obtain ⟨s, hs⟩ := Option.isSome_iff_exists.mp
    (by decide +kernel : (run Pool.step (Pool.start 0 2) (twoSockets.take 9)).isSome = true)
  exact ⟨s, hs, pool_awake (by decide) hs⟩

lemma exists_alive_iff {workers : List (Worker Socket)} :
    0 < workers.countP Worker.isAlive ↔ ∃ w ∈ workers, w ≠ .exited := by
  rw [List.countP_pos_iff]
  refine exists_congr fun w => and_congr_right fun _ => ?_
  cases w <;> simp [Worker.isAlive]

/-- **`mg_stop` returns** when the last worker has left, and the master sleeps behind its broadcast
only as long as there is one.  The last worker signals under the mutex that the master tests
`num_threads` under, so its signal cannot come between the test and the wait; the context is freed
when nobody uses it any more. -/
theorem pool_stopped (hn : n < 2 ^ 31)
    (hrun : run Pool.step (Pool.start blank n) acts = some s) :
    (s.ctx.stop_flag = 2 → ∀ w ∈ s.workers, w = .exited) ∧
      (s.master = .sleeping → ∃ w ∈ s.workers, w ≠ .exited) := by
  have h := inv_of_run hn hrun
  have halive := h.alive
  constructor
  · intro hended w hw
    by_contra hne
    have hpos := exists_alive_iff.mpr ⟨w, hw, hne⟩
    have hzero := h.ended hended
    omega
  · intro hsleeping
    have hpos := h.sleeping hsleeping
    exact exists_alive_iff.mp (by omega)

/-- A worker sleeps when `mg_stop` raises the flag. -/
def stopWhileAsleep : List (PoolAction ℕ) :=
  [.worker 0, .worker 0, .worker 0, .stop, .master none, .master none, .worker 0, .worker 0,
    .master none]

theorem stopWhileAsleep_stopped :
    ∃ s, run Pool.step (Pool.start 0 1) stopWhileAsleep = some s ∧
      (s.ctx.stop_flag = 2 → ∀ w ∈ s.workers, w = .exited) ∧
      (s.master = .sleeping → ∃ w ∈ s.workers, w ≠ .exited) := by
  obtain ⟨s, hs⟩ := Option.isSome_iff_exists.mp
    (by decide +kernel : (run Pool.step (Pool.start 0 1) stopWhileAsleep).isSome = true)
  exact ⟨s, hs, pool_stopped (by decide) hs⟩

/-! ## The broadcast -/

/-- The flag is up, and nobody sleeps or is about to. -/
structure Settled (s : Pool Socket) : Prop where
  raised : s.ctx.stop_flag ≠ 0
  waiting : .waiting ∉ s.workers
  holding : .holding ∉ s.workers

lemma Settled.setWorker (h : Settled s) {w : Worker Socket} (hw : w ≠ .waiting)
    (hh : w ≠ .holding) {ctx : mg_context Socket} (hctx : ctx.stop_flag = s.ctx.stop_flag)
    (m : Master Socket) (taken : List (ℕ × Socket)) :
    Settled { s with ctx, workers := s.workers.set i w, master := m, taken } where
  raised := hctx ▸ h.raised
  waiting hmem := (List.mem_or_eq_of_mem_set hmem).elim h.waiting (Ne.symm hw)
  holding hmem := (List.mem_or_eq_of_mem_set hmem).elim h.holding (Ne.symm hh)

/-- The broadcast settles the pool, if everybody who is about to sleep does so already. -/
lemma settled_broadcast (hraised : s.ctx.stop_flag ≠ 0) (hholding : .holding ∉ s.workers) :
    Settled { s with workers := s.workers.map Worker.woken, master := .joining } := by
  refine ⟨hraised, fun hmem => ?_, fun hmem => ?_⟩
  · obtain ⟨w, -, hwoken⟩ := List.mem_map.mp hmem
    obtain ⟨heq, hne⟩ := (woken_eq_iff (by simp)).mp hwoken
    exact hne heq
  · obtain ⟨w, hw, hwoken⟩ := List.mem_map.mp hmem
    exact hholding (((woken_eq_iff (by simp)).mp hwoken).1 ▸ hw)

/-- A stopped pool stays settled. -/
lemma Settled.step (h : Settled s) (hinv : s.Inv) {a : PoolAction Socket}
    (hstep : s.step a = some s') : Settled s' := by
  have hrunning : s.aborted.isSome = false := by rw [hinv.running, Option.isSome_none]
  cases a with
  | stop =>
      simp only [Pool.step, hrunning, Bool.false_eq_true, if_false, if_neg h.raised] at hstep
      cases hstep
  | accept sp =>
      simp only [Pool.step, hrunning, Bool.false_eq_true, if_false] at hstep
      split at hstep
      · cases hstep
        exact ⟨h.raised, h.waiting, h.holding⟩
      · cases hstep
  | master woken =>
      simp only [Pool.step, hrunning, Bool.false_eq_true, if_false] at hstep
      rw [master_thread] at hstep
      cases hmaster : s.master with
      | looping | selecting | waiting sp | sleeping =>
          simp only [hmaster, Option.some.injEq] at hstep
          subst hstep
          exact ⟨h.raised, h.waiting, h.holding⟩
      | producing sp =>
          simp only [hmaster] at hstep
          split_ifs at hstep with hfree
          have hspec := produce_socket_spec hinv.counters sp
          split_ifs at hspec with hfull
          · simp only [hspec, Option.some.injEq] at hstep
            subst hstep
            exact ⟨h.raised, h.waiting, h.holding⟩
          · obtain ⟨ctx, hctx, hproduced⟩ := hspec
            simp only [hctx, Option.map_eq_some_iff] at hstep
            obtain ⟨workers, hsignal, rfl⟩ := hstep
            -- nobody sleeps, so the signal wakes nobody
            rcases signal_cases hsignal with ⟨rfl, -⟩ | ⟨i, hi, -⟩
            · exact ⟨hproduced.stop_flag ▸ h.raised, h.waiting, h.holding⟩
            · exact absurd (List.mem_of_getElem? hi) h.waiting
      | broadcasting =>
          simp only [hmaster, Option.some.injEq] at hstep
          subst hstep
          exact settled_broadcast h.raised h.holding
      | joining =>
          simp only [hmaster] at hstep
          split_ifs at hstep
          · cases hstep
            exact ⟨h.raised, h.waiting, h.holding⟩
          · cases hstep
            exact ⟨two_ne_zero, h.waiting, h.holding⟩
      | gone => simp [hmaster] at hstep
  | worker i =>
      simp only [Pool.step, hrunning, Bool.false_eq_true, if_false] at hstep
      obtain ⟨w, hw, hstep⟩ := Option.bind_eq_some_iff.mp hstep
      cases w with
      | looping =>
          simp only [worker_thread, if_neg h.raised] at hstep
          cases hstep
          exact h.setWorker (by simp) (by simp) rfl _ _
      | locking =>
          simp only [worker_thread, consume_socket_stopped h.raised] at hstep
          split_ifs at hstep
          cases hstep
          exact h.setWorker (by simp) (by simp) rfl _ _
      | holding => exact absurd (List.mem_of_getElem? hw) h.holding
      | waiting => exact absurd (List.mem_of_getElem? hw) h.waiting
      | serving sp =>
          cases hstep
          exact h.setWorker (by simp) (by simp) rfl _ _
      | leaving =>
          simp only [worker_thread] at hstep
          split_ifs at hstep with hfree
          obtain ⟨ctx, hctx, hflag, -⟩ := hinv.left hw hfree
          simp only [hctx, Option.some.injEq] at hstep
          subst hstep
          exact h.setWorker (by simp) (by simp) hflag _ _
      | exited => cases hstep

/-- What a step of a worker does to the others. -/
lemma worker_frame {w : Worker Socket} (hstep : worker_thread s i w = some s') :
    (∀ j, j ≠ i → s'.workers[j]? = s.workers[j]?) ∧
      (s'.master = s.master ∨ s'.master = s.master.roomMade ∨
        s'.master = s.master.threadEnded) := by
  have hset : ∀ (w' : Worker Socket) (j : ℕ), j ≠ i →
      (s.workers.set i w')[j]? = s.workers[j]? := fun w' j hj => List.getElem?_set_ne hj.symm
  cases w with
  | looping | holding | waiting | serving sp =>
      cases hstep
      exact ⟨hset _, Or.inl rfl⟩
  | locking =>
      simp only [worker_thread] at hstep
      split_ifs at hstep
      split at hstep
      · cases hstep
        exact ⟨fun j _ => rfl, Or.inl rfl⟩
      · cases hstep
        exact ⟨hset _, Or.inl rfl⟩
      · cases hstep
        exact ⟨hset _, Or.inl rfl⟩
      · cases hstep
        exact ⟨hset _, Or.inr (Or.inl rfl)⟩
  | leaving =>
      simp only [worker_thread] at hstep
      split_ifs at hstep
      split at hstep
      · cases hstep
        exact ⟨fun j _ => rfl, Or.inl rfl⟩
      · cases hstep
        exact ⟨hset _, Or.inr (Or.inr rfl)⟩
  | exited => cases hstep

/-- A worker sleeps, or is about to, and no broadcast will come. -/
structure Missed (s : Pool Socket) (i : ℕ) : Prop where
  master : s.master = .joining ∨ s.master = .sleeping ∨ s.master = .gone
  worker : s.workers[i]? = some .holding ∨ s.workers[i]? = some .waiting

lemma Missed.step (h : Missed s i) {a : PoolAction Socket}
    (hundisturbed : a = .worker i → s.workers[i]? ≠ some .waiting) (hstep : s.step a = some s') :
    Missed s' i := by
  have hrunning : s.aborted.isSome = false := by
    by_contra hne
    simp [Pool.step, hne] at hstep
  cases a with
  | stop =>
      simp only [Pool.step, hrunning, Bool.false_eq_true, if_false] at hstep
      split_ifs at hstep
      cases hstep
      exact ⟨h.master, h.worker⟩
  | accept sp =>
      simp only [Pool.step, hrunning, Bool.false_eq_true, if_false] at hstep
      rcases h.master with hmaster | hmaster | hmaster <;> simp [hmaster] at hstep
  | master woken =>
      simp only [Pool.step, hrunning, Bool.false_eq_true, if_false, master_thread] at hstep
      rcases h.master with hmaster | hmaster | hmaster
      · simp only [hmaster] at hstep
        split_ifs at hstep
        · cases hstep
          exact ⟨Or.inr (Or.inl rfl), h.worker⟩
        · cases hstep
          exact ⟨Or.inr (Or.inr rfl), h.worker⟩
      · simp only [hmaster, Option.some.injEq] at hstep
        subst hstep
        exact ⟨Or.inl rfl, h.worker⟩
      · simp [hmaster] at hstep
  | worker j =>
      simp only [Pool.step, hrunning, Bool.false_eq_true, if_false] at hstep
      obtain ⟨w, hw, hstep⟩ := Option.bind_eq_some_iff.mp hstep
      obtain ⟨hothers, hmaster⟩ := worker_frame hstep
      constructor
      · rcases h.master with heq | heq | heq
        all_goals simp only [heq, Master.roomMade, Master.threadEnded] at hmaster
        all_goals tauto
      · by_cases hij : i = j
        · subst hij
          have hholding := h.worker.resolve_right (hundisturbed rfl)
          cases hw.symm.trans hholding
          cases hstep
          exact Or.inr (List.getElem?_set_self (lt_of_getElem? hw))
        · rw [hothers i hij]
          exact h.worker

/-- **What the broadcast decides.**  The master does not take the mutex for it.  If no worker is at
its wait with the mutex at this moment, none sleeps from then on.  Such a worker has tested
`stop_flag` before and misses the broadcast: it sleeps on, and `mg_stop` does not return unless the
worker wakes up by itself. -/
theorem broadcast_decides (hn : n < 2 ^ 31)
    (hrun : run Pool.step (Pool.start blank n) acts = some s) (hmaster : s.master = .broadcasting)
    {woken : Option ℕ} (hstep : s.step (.master woken) = some s') :
    (.holding ∉ s.workers → ∀ acts' s'', run Pool.step s' acts' = some s'' →
      .waiting ∉ s''.workers) ∧
    (∀ i : ℕ, s.workers[i]? = some .holding → ∀ acts' s'', run Pool.step s' acts' = some s'' →
      StepsMeet Pool.step s' (fun _ s a => a = .worker i → s.workers[i]? ≠ some .waiting) acts' →
      s''.ctx.stop_flag ≠ 2) := by
  have hinv := inv_of_run hn hrun
  have hinv' := hinv.step hstep
  have hrunning : s.aborted.isSome = false := by rw [hinv.running, Option.isSome_none]
  have hs' : s' = { s with workers := s.workers.map Worker.woken, master := .joining } := by
    simp only [Pool.step, hrunning, Bool.false_eq_true, if_false, master_thread, hmaster,
      Option.some.injEq] at hstep
    exact hstep.symm
  constructor
  · intro hholding acts' s'' hrun'
    have hsettled : Settled s' :=
      hs' ▸ settled_broadcast (hinv.stopping (by rw [hmaster]; rfl)) hholding
    have hend := @run_induction _ _ Pool.step s' (fun _ s => s.Inv ∧ Settled s) ⟨hinv', hsettled⟩
      (fun _ h hstep => ⟨h.1.step hstep, h.2.step h.1 hstep⟩) _ _ hrun'
    exact hend.2.waiting
  · intro i hholding acts' s'' hrun' hundisturbed
    have hmissed : Missed s' i := by
      rw [hs']
      exact ⟨Or.inl rfl, Or.inl (by rw [List.getElem?_map, hholding]; rfl)⟩
    have hend := @run_invariant _ _ Pool.step s' _ (fun _ s => s.Inv ∧ Missed s i) ⟨hinv', hmissed⟩
      (fun _ h hc hstep => ⟨h.1.step hstep, h.2.step hc hstep⟩) _ _ hundisturbed hrun'
    intro hended
    have hzero := hend.1.ended hended
    have halive := hend.1.alive
    have hpos : 0 < s''.workers.countP Worker.isAlive := by
      rcases hend.2.worker with hw | hw
      · exact exists_alive_iff.mpr ⟨_, List.mem_of_getElem? hw, by simp⟩
      · exact exists_alive_iff.mpr ⟨_, List.mem_of_getElem? hw, by simp⟩
    omega

/-- `mg_stop` raises the flag while the worker has the mutex. -/
theorem stopWhileHolding_decided : ∃ s s', run Pool.step (Pool.start 0 1)
      [.worker 0, .worker 0, .stop, .master none] = some s ∧
    s.step (.master none) = some s' ∧
    (.holding ∉ s.workers → ∀ acts' s'', run Pool.step s' acts' = some s'' →
      .waiting ∉ s''.workers) ∧
    (∀ i : ℕ, s.workers[i]? = some .holding → ∀ acts' s'', run Pool.step s' acts' = some s'' →
      StepsMeet Pool.step s' (fun _ s a => a = .worker i → s.workers[i]? ≠ some .waiting) acts' →
      s''.ctx.stop_flag ≠ 2) := by
  obtain ⟨s, hs, htest⟩ := (Option.any_eq_true _ _).mp
    (by decide +kernel : (run Pool.step (Pool.start 0 1) [.worker 0, .worker 0, .stop,
      .master none]).any (fun s => s.master = .broadcasting ∧
        (s.step (.master none)).isSome = true) = true)
  obtain ⟨hmaster, hnext⟩ := of_decide_eq_true htest
  obtain ⟨s', hs'⟩ := Option.isSome_iff_exists.mp hnext
  exact ⟨s, s', hs, hs', broadcast_decides (by decide) hs hmaster hs'⟩

end Runs

end PerVERT
