import PerVERT.Core.Transition
import Mathlib.Algebra.Ring.Nat

/-!
# `DB.f_counts`

The answer to `/f/counts` is cached.  Until it is there, `f_counts` keeps the continuations it is
given, and makes a request unless one is pending.  A continuation may call `f_counts` again while
those behind it still wait for their turn.

* `DB.f_counts`, `DB.success`, `DB.complete` — the code, one call at a time.
* `DB`, `DBAction`, `dbStep` — the calls, the continuations as they begin and return, and the
  responses, in any order that one thread allows.
* `DBInv` — the state of the cache, and who still has to be called; **`DBInv.step`** keeps it.
* **`f_counts_delivers`** — one request at a time, no continuation twice, and each that was waiting
  for a response gets this response.
* **`exists_settled`** — a delivery is done once the continuations return.

A continuation is given by the number of the call that registered it.  The functions that run are
a stack, and the responses come when it is empty.
-/

namespace PerVERT

/-! ## The code -/

/-- A function that has begun. -/
inductive Frame
  /-- The continuation of a call. -/
  | cont (k : ℕ)
  /-- The callbacks of a request that succeeded: the loop of `success`, with the continuations
  that are left, and then `complete`. -/
  | each (request : ℕ) (rest : List ℕ)
  deriving DecidableEq, Repr

/-- The variables of `DB` that `f_counts` uses, and what has happened. -/
structure DB (Data : Type*) where
  /-- `__f_counts`; null is `none`. -/
  cached : Option Data
  /-- `__f_counts_pending`. -/
  pending : Bool
  /-- `__f_counts_continuations`. -/
  continuations : List ℕ
  /-- `__ajaxqueue.__data`. -/
  queue : List ℕ
  /-- The number of requests that were made. -/
  requests : ℕ
  /-- The requests that are not complete. -/
  outstanding : List ℕ
  /-- The number of calls of `f_counts`. -/
  calls : ℕ
  /-- The functions that run, the innermost first. -/
  stack : List Frame
  /-- The continuations that were called, and their argument. -/
  delivered : List (ℕ × Option Data)

variable {Data : Type*}

def DB.start : DB Data where
  cached := none
  pending := false
  continuations := []
  queue := []
  requests := 0
  outstanding := []
  calls := 0
  stack := []
  delivered := []

/-- `jqXHRQueue.complete`.  An argument that is not given is not in the list. -/
def jqXHRQueue.complete (data : List ℕ) (xhr : Option ℕ) : List ℕ :=
  match xhr with
  | some r => data.erase r
  | none => data

/-- `jqXHRQueue.ajax`. -/
def DB.ajax (s : DB Data) : DB Data :=
  { s with
    queue := s.queue ++ [s.requests]
    requests := s.requests + 1
    outstanding := s.outstanding ++ [s.requests] }

/-- `cont(__f_counts)`. -/
def DB.callCont (s : DB Data) (cont : ℕ) : DB Data :=
  { s with
    stack := .cont cont :: s.stack
    delivered := s.delivered ++ [(cont, s.cached)] }

/-- `DB.f_counts`. -/
def DB.f_counts (s : DB Data) (cont : ℕ) : DB Data :=
  if s.cached.isSome then s.callCont cont
  else if s.pending then { s with continuations := s.continuations ++ [cont] }
  else DB.ajax { s with continuations := s.continuations ++ [cont], pending := true }

/-- `success`, up to the first round of its loop. -/
def DB.success (s : DB Data) (request : ℕ) (data : Data) : DB Data :=
  { s with
    cached := some data
    stack := .each request s.continuations :: s.stack }

/-- `complete`, as `ajax` wraps it. -/
def DB.complete (s : DB Data) (request : ℕ) : DB Data :=
  { s with
    queue := jqXHRQueue.complete s.queue none
    continuations := []
    pending := false
    outstanding := s.outstanding.erase request }

/-! ## The thread -/

/-- What the thread does next. -/
inductive DBAction (Data : Type*)
  /-- A handler of the page, or the continuation that runs, calls `f_counts`. -/
  | call
  /-- The continuation returns. -/
  | ret
  /-- The loop goes on. -/
  | next
  /-- A request succeeds. -/
  | success (request : ℕ) (data : Data)
  /-- A request fails, which is only logged. -/
  | error (request : ℕ)

def dbStep (s : DB Data) : DBAction Data → Option (DB Data)
  | .call =>
      match s.stack with
      | .each _ _ :: _ => none
      | _ => some (DB.f_counts { s with calls := s.calls + 1 } s.calls)
  | .ret =>
      match s.stack with
      | .cont _ :: stack => some { s with stack }
      | _ => none
  | .next =>
      match s.stack with
      | .each request (k :: rest) :: stack =>
          some (DB.callCont { s with stack := .each request rest :: stack } k)
      | .each request [] :: stack => some (DB.complete { s with stack } request)
      | _ => none
  | .success request data =>
      if s.stack = [] ∧ request ∈ s.outstanding then some (s.success request data) else none
  | .error request =>
      if s.stack = [] ∧ request ∈ s.outstanding then some (s.complete request) else none

/-! ## What is wanted -/

/-- What a history that ends in `s` has delivered. -/
structure DeliversOnce (acts : List (DBAction Data)) (s : DB Data) : Prop where
  one_request : s.outstanding.length ≤ 1
  never_twice : (s.delivered.map Prod.fst).Nodup
  /-- A call that finds or makes a request which succeeds: once the callbacks are done, its
  continuation has been called once, with the response. -/
  delivered : ∀ before after s₁ s₂ r data, acts = before ++ .call :: after →
    run dbStep .start before = some s₁ → dbStep s₁ .call = some s₂ → r ∈ s₂.outstanding →
    .success r data ∈ after → s.stack = [] →
      s.delivered.filter (fun x => x.1 = s₁.calls) = [(s₁.calls, some data)]
  /-- After a success, a call is answered at once, and makes no request. -/
  at_once : ∀ r data s', .success r data ∈ acts → dbStep s .call = some s' →
    s'.delivered = s.delivered ++ [(s.calls, some data)] ∧
      s'.stack = .cont s.calls :: s.stack ∧ s'.outstanding = s.outstanding ∧
      s'.requests = s.requests

/-! ## The invariant -/

/-- The continuations that a loop has left. -/
def Frame.rest : Frame → List ℕ
  | .cont _ => []
  | .each _ rest => rest

/-- The continuations that wait to be called. -/
def DB.owed (s : DB Data) : List ℕ :=
  match s.cached with
  | none => s.continuations
  | some _ => s.stack.flatMap Frame.rest

/-- The states of the cache: nothing is known, a request is pending, its response is being
delivered, or it has been. -/
inductive CachePhase (s : DB Data) : Prop
  | idle (cached : s.cached = none) (pending : s.pending = false)
      (continuations : s.continuations = []) (outstanding : s.outstanding = [])
      (stack : s.stack = [])
  | waiting (r : ℕ) (cached : s.cached = none) (pending : s.pending = true)
      (outstanding : s.outstanding = [r]) (stack : s.stack = [])
  | delivering (r : ℕ) (data : Data) (conts rest : List ℕ) (cached : s.cached = some data)
      (outstanding : s.outstanding = [r])
      (stack : s.stack = conts.map Frame.cont ++ [.each r rest])
  | done (data : Data) (conts : List ℕ) (cached : s.cached = some data)
      (outstanding : s.outstanding = []) (stack : s.stack = conts.map Frame.cont)

/-- The continuations that were called, and those that wait. -/
def DB.numbers (s : DB Data) : List ℕ := s.delivered.map Prod.fst ++ s.owed

/-- The invariant. -/
structure DBInv (s : DB Data) : Prop where
  phase : CachePhase s
  nodup : s.numbers.Nodup
  fresh : ∀ k ∈ s.numbers, k < s.calls
  requests : ∀ r ∈ s.outstanding, r < s.requests

lemma dbInv_start : DBInv (DB.start : DB Data) :=
  ⟨.idle rfl rfl rfl rfl rfl, List.nodup_nil, by simp [DB.numbers, DB.start, DB.owed],
    by simp [DB.start]⟩

/-! ## One step -/

/-- What a step does to the continuations that wait, and to those that were called. -/
inductive DBEffect (s s' : DB Data) : DBAction Data → Prop
  /-- A call has to wait. -/
  | wait (cached : s.cached = none) (cached' : s'.cached = none)
      (owed : s'.owed = s.owed ++ [s.calls]) (delivered : s'.delivered = s.delivered)
      (calls : s'.calls = s.calls + 1) : DBEffect s s' .call
  /-- A call is answered. -/
  | answer (data : Data) (cached : s.cached = some data) (cached' : s'.cached = some data)
      (owed : s'.owed = s.owed) (delivered : s'.delivered = s.delivered ++ [(s.calls, some data)])
      (calls : s'.calls = s.calls + 1) : DBEffect s s' .call
  /-- The loop calls the next continuation. -/
  | serve (data : Data) (k : ℕ) (cached : s.cached = some data) (cached' : s'.cached = some data)
      (owed : s.owed = k :: s'.owed) (delivered : s'.delivered = s.delivered ++ [(k, some data)])
      (calls : s'.calls = s.calls) : DBEffect s s' .next
  /-- Something ends. -/
  | quiet (a : DBAction Data) (ha : a = .ret ∨ a = .next) (cached : s'.cached = s.cached)
      (owed : s'.owed = s.owed) (delivered : s'.delivered = s.delivered)
      (calls : s'.calls = s.calls) : DBEffect s s' a
  /-- A response. -/
  | fill (r : ℕ) (data : Data) (hr : r ∈ s.outstanding) (cached : s.cached = none)
      (cached' : s'.cached = some data) (owed : s'.owed = s.owed)
      (delivered : s'.delivered = s.delivered) (calls : s'.calls = s.calls) :
      DBEffect s s' (.success r data)
  /-- A failure, after which nobody waits. -/
  | drop (r : ℕ) (cached : s.cached = none) (cached' : s'.cached = none)
      (outstanding' : s'.outstanding = []) (owed : s'.owed = [])
      (delivered : s'.delivered = s.delivered) (calls : s'.calls = s.calls) :
      DBEffect s s' (.error r)

/-- The state of the cache behind a step, and the requests. -/
structure DBMoved (s s' : DB Data) : Prop where
  phase : CachePhase s'
  outstanding : ∀ r ∈ s'.outstanding,
    r ∈ s.outstanding ∨ (r = s.requests ∧ s'.requests = s.requests + 1)
  requests : s.requests ≤ s'.requests

section Step

variable {s s' : DB Data} {a : DBAction Data} {data : Data} {k r : ℕ}

lemma owed_of_none (h : s.cached = none) : s.owed = s.continuations := by
  rw [DB.owed, h]

lemma owed_of_some (h : s.cached = some data) : s.owed = s.stack.flatMap Frame.rest := by
  rw [DB.owed, h]

/-- Once the data are there, only the loops owe calls. -/
lemma owed_eq_of_some (hc : s.cached = some data) (hc' : s'.cached = some data)
    (h : s'.stack.flatMap Frame.rest = s.stack.flatMap Frame.rest) : s'.owed = s.owed := by
  rw [owed_of_some hc, owed_of_some hc', h]

/-- The thread is in a continuation, or it is free. -/
lemma exists_running_of_cached (hp : CachePhase s) (hc : s.cached = some data) :
    (∃ conts : List ℕ, s.stack = conts.map Frame.cont ∧ s.outstanding = []) ∨
      ∃ (r : ℕ) (conts rest : List ℕ),
        s.stack = conts.map Frame.cont ++ [.each r rest] ∧ s.outstanding = [r] := by
  cases hp with
  | idle cached => simp [hc] at cached
  | waiting r cached => simp [hc] at cached
  | delivering r d conts rest _ outstanding stack =>
      exact Or.inr ⟨r, conts, rest, stack, outstanding⟩
  | done d conts _ outstanding stack => exact Or.inl ⟨conts, stack, outstanding⟩

/-- A continuation that is called while the data are cached goes on top of the stack. -/
lemma cachePhase_callCont {conts rest : List ℕ} (hc : s.cached = some data)
    (hstack : (s.stack = conts.map Frame.cont ∧ s.outstanding = []) ∨
      (s.stack = conts.map Frame.cont ++ [.each r rest] ∧ s.outstanding = [r])) (k : ℕ) :
    CachePhase (s.callCont k) := by
  rcases hstack with ⟨hstack, hout⟩ | ⟨hstack, hout⟩
  · exact .done data (k :: conts) hc hout (by simp [DB.callCont, hstack])
  · exact .delivering r data (k :: conts) rest hc hout (by simp [DB.callCont, hstack])

lemma f_counts_of_some (hc : s.cached = some data) (k : ℕ) : s.f_counts k = s.callCont k := by
  rw [DB.f_counts, if_pos (by simp [hc])]

lemma f_counts_of_pending (hc : s.cached = none) (hp : s.pending = true) (k : ℕ) :
    s.f_counts k = { s with continuations := s.continuations ++ [k] } := by
  rw [DB.f_counts, if_neg (by simp [hc]), if_pos hp]

lemma f_counts_of_idle (hc : s.cached = none) (hp : s.pending = false) (k : ℕ) :
    s.f_counts k = DB.ajax { s with continuations := s.continuations ++ [k], pending := true } := by
  rw [DB.f_counts, if_neg (by simp [hc]), if_neg (by simp [hp])]

/-- **A call that waits.** -/
lemma call_of_none (h : CachePhase s) (hc : s.cached = none) :
    DBMoved s (DB.f_counts { s with calls := s.calls + 1 } s.calls) ∧
      DBEffect s (DB.f_counts { s with calls := s.calls + 1 } s.calls) .call := by
  cases h with
  | idle cached pending continuations outstanding stack =>
      rw [@f_counts_of_idle _ { s with calls := s.calls + 1 } hc pending]
      refine ⟨⟨.waiting s.requests hc rfl ?_ stack, ?_, Nat.le_succ _⟩, .wait hc hc ?_ rfl rfl⟩
      · simp [DB.ajax, outstanding]
      · intro r hr
        simp only [DB.ajax, outstanding, List.nil_append, List.mem_singleton] at hr
        exact Or.inr ⟨hr, rfl⟩
      · rw [owed_of_none hc]
        exact owed_of_none hc
  | waiting r cached pending outstanding stack =>
      rw [@f_counts_of_pending _ { s with calls := s.calls + 1 } hc pending]
      refine ⟨⟨.waiting r hc pending outstanding stack, fun r hr => Or.inl hr, Nat.le_refl _⟩,
        .wait hc hc ?_ rfl rfl⟩
      rw [owed_of_none hc]
      exact owed_of_none hc
  | delivering r d conts rest cached => simp [hc] at cached
  | done d conts cached => simp [hc] at cached

/-- **A call that is answered.** -/
lemma call_of_some (h : CachePhase s) (hc : s.cached = some data) :
    DBMoved s (DB.f_counts { s with calls := s.calls + 1 } s.calls) ∧
      DBEffect s (DB.f_counts { s with calls := s.calls + 1 } s.calls) .call := by
  rw [@f_counts_of_some _ { s with calls := s.calls + 1 } data hc]
  refine ⟨⟨?_, fun r hr => Or.inl hr, Nat.le_refl _⟩, .answer data hc hc ?_ ?_ rfl⟩
  · rcases exists_running_of_cached h hc with ⟨conts, hstack, hout⟩ | ⟨r, conts, rest, hstack, hout⟩
    · exact @cachePhase_callCont _ { s with calls := s.calls + 1 } data 0 conts [] hc
        (Or.inl ⟨hstack, hout⟩) _
    · exact @cachePhase_callCont _ { s with calls := s.calls + 1 } data r conts rest hc
        (Or.inr ⟨hstack, hout⟩) _
  · exact owed_eq_of_some hc hc rfl
  · simp [DB.callCont, hc]

/-- **A continuation returns.** -/
lemma ret_spec (h : CachePhase s) {stack : List Frame} (hstack : s.stack = .cont k :: stack) :
    DBMoved s { s with stack } ∧ DBEffect s { s with stack } .ret := by
  cases h with
  | idle _ _ _ _ hnil => simp [hstack] at hnil
  | waiting _ _ _ _ hnil => simp [hstack] at hnil
  | delivering r d conts rest cached outstanding hconts =>
      cases conts with
      | nil => simp [hstack] at hconts
      | cons j conts =>
          simp only [hstack, List.map_cons, List.cons_append, List.cons.injEq] at hconts
          refine ⟨⟨.delivering r d conts rest cached outstanding hconts.2, fun r hr => Or.inl hr,
            Nat.le_refl _⟩, .quiet _ (Or.inl rfl) rfl ?_ rfl rfl⟩
          refine owed_eq_of_some cached cached ?_
          rw [hstack]
          rfl
  | done d conts cached outstanding hconts =>
      cases conts with
      | nil => simp [hstack] at hconts
      | cons j conts =>
          simp only [hstack, List.map_cons, List.cons.injEq] at hconts
          refine ⟨⟨.done d conts cached outstanding hconts.2, fun r hr => Or.inl hr,
            Nat.le_refl _⟩, .quiet _ (Or.inl rfl) rfl ?_ rfl rfl⟩
          refine owed_eq_of_some cached cached ?_
          rw [hstack]
          rfl

/-- The loop is the outermost function, and its request the one that is outstanding. -/
lemma loop_of_phase (h : CachePhase s) {stack : List Frame} {rest : List ℕ}
    (hstack : s.stack = .each r rest :: stack) :
    stack = [] ∧ s.outstanding = [r] ∧ ∃ data, s.cached = some data := by
  cases h with
  | idle _ _ _ _ hnil => simp [hstack] at hnil
  | waiting _ _ _ _ hnil => simp [hstack] at hnil
  | delivering r' d conts rest' cached outstanding hconts =>
      cases conts with
      | nil =>
          simp only [hstack, List.map_nil, List.nil_append, List.cons.injEq,
            Frame.each.injEq] at hconts
          obtain ⟨⟨rfl, -⟩, rfl⟩ := hconts
          exact ⟨rfl, outstanding, d, cached⟩
      | cons j conts => simp [hstack] at hconts
  | done d conts cached outstanding hconts =>
      cases conts with
      | nil => simp [hstack] at hconts
      | cons j conts => simp [hstack] at hconts

/-- **The loop calls** the next continuation. -/
lemma next_cons_spec (h : CachePhase s) {stack : List Frame} {rest : List ℕ}
    (hstack : s.stack = .each r (k :: rest) :: stack) :
    DBMoved s (DB.callCont { s with stack := .each r rest :: stack } k) ∧
      DBEffect s (DB.callCont { s with stack := .each r rest :: stack } k) .next := by
  obtain ⟨rfl, hout, data, hc⟩ := loop_of_phase h hstack
  refine ⟨⟨@cachePhase_callCont _ { s with stack := [.each r rest] } data r [] rest hc
    (Or.inr ⟨rfl, hout⟩) k, fun r hr => Or.inl hr, Nat.le_refl _⟩,
    .serve data k hc hc ?_ ?_ rfl⟩
  · have howed := @owed_of_some _ (DB.callCont { s with stack := [.each r rest] } k) data hc
    rw [owed_of_some hc, howed, hstack]
    rfl
  · simp [DB.callCont, hc]

/-- **The loop is done**, and the request is complete. -/
lemma next_nil_spec (h : CachePhase s) {stack : List Frame}
    (hstack : s.stack = .each r [] :: stack) :
    DBMoved s (DB.complete { s with stack } r) ∧
      DBEffect s (DB.complete { s with stack } r) .next := by
  obtain ⟨rfl, hout, data, hc⟩ := loop_of_phase h hstack
  refine ⟨⟨.done data [] hc (by simp [DB.complete, hout]) rfl, fun r' hr' => ?_, Nat.le_refl _⟩,
    .quiet _ (Or.inr rfl) rfl ?_ rfl rfl⟩
  · exact Or.inl (List.mem_of_mem_erase hr')
  · refine owed_eq_of_some hc hc ?_
    rw [hstack]
    rfl

/-- A response comes while it is waited for. -/
lemma waiting_of_free (h : CachePhase s) (hstack : s.stack = []) (hr : r ∈ s.outstanding) :
    s.cached = none ∧ s.outstanding = [r] := by
  cases h with
  | idle _ _ _ outstanding => simp [outstanding] at hr
  | waiting r' cached _ outstanding =>
      rw [outstanding, List.mem_singleton] at hr
      exact ⟨cached, hr ▸ outstanding⟩
  | delivering _ _ _ _ _ _ hconts => simp [hstack] at hconts
  | done _ _ _ outstanding => simp [outstanding] at hr

/-- **A response.** -/
lemma success_spec (h : CachePhase s) (hstack : s.stack = []) (hr : r ∈ s.outstanding)
    (data : Data) :
    DBMoved s (s.success r data) ∧ DBEffect s (s.success r data) (.success r data) := by
  obtain ⟨hc, hout⟩ := waiting_of_free h hstack hr
  refine ⟨⟨.delivering r data [] s.continuations rfl hout ?_, fun r hr => Or.inl hr,
    Nat.le_refl _⟩, .fill r data hr hc rfl ?_ rfl rfl⟩
  · simp [DB.success, hstack]
  · rw [owed_of_none hc, @owed_of_some _ (s.success r data) data rfl]
    simp [DB.success, hstack, Frame.rest]

/-- **A failure.** -/
lemma error_spec (h : CachePhase s) (hstack : s.stack = []) (hr : r ∈ s.outstanding) :
    DBMoved s (s.complete r) ∧ DBEffect s (s.complete r) (.error r) := by
  obtain ⟨hc, hout⟩ := waiting_of_free h hstack hr
  have hnone : (s.complete r).outstanding = [] := by simp [DB.complete, hout]
  refine ⟨⟨.idle hc rfl rfl hnone hstack, fun r' hr' => ?_, Nat.le_refl _⟩,
    .drop r hc hc hnone (owed_of_none hc) rfl rfl⟩
  rw [hnone] at hr'
  cases hr'

/-- **A call** puts its continuation on the stack, when the data are there. -/
lemma stack_call (hc : s.cached = some data) (hs : dbStep s .call = some s') :
    s'.stack = .cont s.calls :: s.stack ∧ s'.outstanding = s.outstanding ∧
      s'.requests = s.requests := by
  unfold dbStep at hs
  simp only at hs
  split at hs
  · cases hs
  · cases Option.some.inj hs
    rw [@f_counts_of_some _ { s with calls := s.calls + 1 } data hc]
    exact ⟨rfl, rfl, rfl⟩

/-- **One step**, whatever it is. -/
theorem CachePhase.step (h : CachePhase s) (hs : dbStep s a = some s') :
    DBMoved s s' ∧ DBEffect s s' a := by
  unfold dbStep at hs
  split at hs
  · split at hs
    · cases hs
    · cases Option.some.inj hs
      rcases Option.eq_none_or_eq_some s.cached with hc | ⟨data, hc⟩
      · exact call_of_none h hc
      · exact call_of_some h hc
  · split at hs
    · next k stack hstack =>
        cases Option.some.inj hs
        exact ret_spec h hstack
    · cases hs
  · split at hs
    · next r k rest stack hstack =>
        cases Option.some.inj hs
        exact next_cons_spec h hstack
    · next r stack hstack =>
        cases Option.some.inj hs
        exact next_nil_spec h hstack
    · cases hs
  · split_ifs at hs with hcond
    cases Option.some.inj hs
    exact success_spec h hcond.1 hcond.2 _
  · split_ifs at hs with hcond
    cases Option.some.inj hs
    exact error_spec h hcond.1 hcond.2

/-- Each call adds its number, and no step adds another. -/
lemma DBEffect.numbers (h : DBEffect s s' a) :
    (s'.calls = s.calls + 1 ∧ s'.numbers.Perm (s.calls :: s.numbers)) ∨
      (s'.calls = s.calls ∧ s'.numbers.Sublist s.numbers) := by
  simp only [DB.numbers]
  cases h with
  | wait _ _ howed hdelivered hcalls =>
      left
      rw [howed, hdelivered, ← List.append_assoc]
      exact ⟨hcalls, List.perm_append_singleton _ _⟩
  | answer data _ _ howed hdelivered hcalls =>
      left
      rw [howed, hdelivered, List.map_append, List.append_assoc]
      exact ⟨hcalls, List.perm_middle⟩
  | serve data k _ _ howed hdelivered hcalls =>
      right
      rw [howed, hdelivered, List.map_append, List.append_assoc]
      exact ⟨hcalls, List.Sublist.refl _⟩
  | quiet a _ _ howed hdelivered hcalls =>
      right
      rw [howed, hdelivered]
      exact ⟨hcalls, List.Sublist.refl _⟩
  | fill r data _ _ _ howed hdelivered hcalls =>
      right
      rw [howed, hdelivered]
      exact ⟨hcalls, List.Sublist.refl _⟩
  | drop r _ _ _ howed hdelivered hcalls =>
      right
      rw [howed, hdelivered, List.append_nil]
      exact ⟨hcalls, List.sublist_append_left _ _⟩

/-- **One step** keeps the invariant. -/
theorem DBInv.step (h : DBInv s) (hs : dbStep s a = some s') : DBInv s' := by
  obtain ⟨hmoved, heffect⟩ := h.phase.step hs
  have hrequests : ∀ r ∈ s'.outstanding, r < s'.requests := by
    intro r hr
    rcases hmoved.outstanding r hr with hr | ⟨rfl, hnext⟩
    · exact Nat.lt_of_lt_of_le (h.requests r hr) hmoved.requests
    · exact hnext ▸ Nat.lt_succ_self _
  rcases heffect.numbers with ⟨hcalls, hperm⟩ | ⟨hcalls, hsub⟩
  · have hnew : s.calls ∉ s.numbers := fun hmem => Nat.lt_irrefl _ (h.fresh _ hmem)
    refine ⟨hmoved.phase, hperm.nodup_iff.mpr (List.nodup_cons.mpr ⟨hnew, h.nodup⟩), ?_, hrequests⟩
    intro k hk
    rw [hcalls]
    rcases List.mem_cons.mp (hperm.mem_iff.mp hk) with rfl | hk
    · exact Nat.lt_succ_self _
    · exact Nat.lt_succ_of_lt (h.fresh k hk)
  · refine ⟨hmoved.phase, h.nodup.sublist hsub, fun k hk => ?_, hrequests⟩
    rw [hcalls]
    exact h.fresh k (hsub.subset hk)

end Step

/-! ## Runs -/

section Runs

variable {s₀ s s' : DB Data} {acts : List (DBAction Data)} {data : Data} {k r : ℕ}

lemma DBInv.run (h : DBInv s₀) (hrun : PerVERT.run dbStep s₀ acts = some s) : DBInv s :=
  @run_induction _ _ dbStep s₀ (fun _ => DBInv) h (fun _ hi hs => hi.step hs) acts s hrun

/-- What is cached stays. -/
lemma DBEffect.cached {a : DBAction Data} (h : DBEffect s s' a) (hc : s.cached = some data) :
    s'.cached = some data := by
  cases h with
  | wait hnone => simp [hc] at hnone
  | answer d hd hd' => exact hd'.trans (hd.symm.trans hc)
  | serve d k hd hd' => exact hd'.trans (hd.symm.trans hc)
  | quiet a _ hsame => exact hsame.trans hc
  | fill r d _ hnone => simp [hc] at hnone
  | drop r hnone => simp [hc] at hnone

/-- **A response** is what is cached from then on. -/
lemma cached_of_success (h : DBInv s₀) (hrun : PerVERT.run dbStep s₀ acts = some s)
    (hmem : .success r data ∈ acts) : s.cached = some data := by
  refine @run_induction _ _ dbStep s₀ (fun acts s => .success r data ∈ acts → s.cached = some data)
    (by simp) ?_ acts s hrun hmem
  intro acts s a s' hrun ih hs hmem
  have heffect := ((h.run hrun).phase.step hs).2
  rcases List.mem_append.mp hmem with hmem | hmem
  · exact heffect.cached (ih hmem)
  · rw [List.mem_singleton] at hmem
    subst hmem
    cases heffect with
    | quiet _ hret => simp at hret
    | fill _ _ _ _ hfilled => exact hfilled

/-- A continuation that waits, keeps waiting until it is called or the request fails. -/
lemma DBEffect.owed {a : DBAction Data} (h : DBEffect s s' a) (hk : k ∈ s.owed) :
    k ∈ s'.owed ∨ (∃ data, s.cached = some data ∧ (k, some data) ∈ s'.delivered) ∨
      (s.cached = none ∧ s'.outstanding = []) := by
  cases h with
  | wait _ _ howed =>
      left
      rw [howed]
      exact List.mem_append_left _ hk
  | answer d _ _ howed => exact Or.inl (howed ▸ hk)
  | serve d j hd _ howed hdelivered =>
      rw [howed] at hk
      rcases List.mem_cons.mp hk with rfl | hk
      · refine Or.inr (Or.inl ⟨d, hd, ?_⟩)
        simp [hdelivered]
      · exact Or.inl hk
  | quiet a _ _ howed => exact Or.inl (howed ▸ hk)
  | fill r d _ _ _ howed => exact Or.inl (howed ▸ hk)
  | drop r hnone _ hout => exact Or.inr (Or.inr ⟨hnone, hout⟩)

/-- What was called, was called. -/
lemma DBEffect.delivered {a : DBAction Data} (h : DBEffect s s' a) {x : ℕ × Option Data}
    (hx : x ∈ s.delivered) : x ∈ s'.delivered := by
  cases h with
  | wait _ _ _ hdelivered => exact hdelivered ▸ hx
  | answer d _ _ _ hdelivered =>
      rw [hdelivered]
      exact List.mem_append_left _ hx
  | serve d j _ _ _ hdelivered =>
      rw [hdelivered]
      exact List.mem_append_left _ hx
  | quiet a _ _ _ hdelivered => exact hdelivered ▸ hx
  | fill r d _ _ _ _ hdelivered => exact hdelivered ▸ hx
  | drop r _ _ _ _ hdelivered => exact hdelivered ▸ hx

/-- A continuation waits for as long as its request is outstanding and has no response. -/
lemma owed_of_outstanding (h : DBInv s₀) (hr : r ∈ s₀.outstanding)
    (hk : s₀.cached = none → k ∈ s₀.owed) (hrun : PerVERT.run dbStep s₀ acts = some s) :
    r < s.requests ∧ (r ∈ s.outstanding → s.cached = none → k ∈ s.owed) := by
  refine @run_induction _ _ dbStep s₀
    (fun _ s => r < s.requests ∧ (r ∈ s.outstanding → s.cached = none → k ∈ s.owed))
    ⟨h.requests r hr, fun _ => hk⟩ ?_ acts s hrun
  rintro acts s a s' hrun ⟨hlt, hwaits⟩ hs
  obtain ⟨hmoved, heffect⟩ := (h.run hrun).phase.step hs
  refine ⟨Nat.lt_of_lt_of_le hlt hmoved.requests, fun hout hnone' => ?_⟩
  have hnone : s.cached = none := by
    rcases Option.eq_none_or_eq_some s.cached with hnone | ⟨d, hd⟩
    · exact hnone
    · rw [heffect.cached hd] at hnone'
      cases hnone'
  have hold : r ∈ s.outstanding := by
    rcases hmoved.outstanding r hout with hold | ⟨rfl, -⟩
    · exact hold
    · exact absurd hlt (Nat.lt_irrefl _)
  rcases heffect.owed (hwaits hold hnone) with howed | ⟨d, hd, -⟩ | ⟨-, hempty⟩
  · exact howed
  · rw [hnone] at hd
    cases hd
  · rw [hempty] at hout
    cases hout

/-- **A continuation that waits for a request** is called once this succeeds, or is in the loop. -/
lemma owed_or_delivered (h : DBInv s₀) (hr : r ∈ s₀.outstanding)
    (hk : s₀.cached = none → k ∈ s₀.owed) (hrun : PerVERT.run dbStep s₀ acts = some s)
    (hmem : .success r data ∈ acts) : k ∈ s.owed ∨ (k, some data) ∈ s.delivered := by
  refine @run_induction _ _ dbStep s₀
    (fun acts s => .success r data ∈ acts → k ∈ s.owed ∨ (k, some data) ∈ s.delivered)
    (by simp) ?_ acts s hrun hmem
  intro acts s a s' hrun hserved hs hmem
  have heffect := ((h.run hrun).phase.step hs).2
  rcases List.mem_append.mp hmem with hmem | hmem
  · -- the response came before this step
    have hcached := cached_of_success h hrun hmem
    rcases hserved hmem with howed | hdelivered
    · rcases heffect.owed howed with howed | ⟨d, hd, hdelivered⟩ | ⟨hnone, -⟩
      · exact Or.inl howed
      · cases hcached.symm.trans hd
        exact Or.inr hdelivered
      · cases hcached.symm.trans hnone
    · exact Or.inr (heffect.delivered hdelivered)
  · -- this step is the response
    rw [List.mem_singleton] at hmem
    subst hmem
    cases heffect with
    | quiet _ hret => simp at hret
    | fill _ _ hout hnone _ howed =>
        exact Or.inl (howed ▸ (owed_of_outstanding h hr hk hrun).2 hout hnone)

/-- Where no number is twice, a number is the number of one entry only. -/
lemma filter_number_eq {x : Option Data} : ∀ {l : List (ℕ × Option Data)},
    (l.map Prod.fst).Nodup → (k, x) ∈ l → l.filter (fun y => y.1 = k) = [(k, x)]
  | y :: l, hnodup, hmem => by
      rw [List.map_cons, List.nodup_cons] at hnodup
      rcases List.mem_cons.mp hmem with rfl | hmem
      · rw [List.filter_cons_of_pos (by simp), List.filter_eq_nil_iff.mpr]
        intro z hz hzk
        refine hnodup.1 (List.mem_map.mpr ⟨z, hz, ?_⟩)
        simpa using hzk
      · have hne : y.1 ≠ k := fun heq =>
          hnodup.1 (List.mem_map.mpr ⟨_, hmem, heq.symm⟩)
        rw [List.filter_cons_of_neg (by simpa using hne)]
        exact filter_number_eq hnodup.2 hmem

/-- A call that finds no data waits. -/
lemma call_owed (h : DBInv s) (hs : dbStep s .call = some s') (hnone : s'.cached = none) :
    s.calls ∈ s'.owed := by
  cases (h.phase.step hs).2 with
  | wait _ _ howed => simp [howed]
  | answer d _ hd => simp [hnone] at hd
  | quiet _ hret => simp at hret

/-- **`f_counts` delivers once**, in every order of calls, returns and responses.  At most one
request is out; no continuation is called twice; whoever waits for a request that succeeds is told
when its callbacks are done; and after the first success every call is answered at once, without a
request. -/
theorem f_counts_delivers (hrun : PerVERT.run dbStep .start acts = some s) :
    DeliversOnce acts s where
  one_request := by
    cases (dbInv_start.run hrun).phase with
    | idle _ _ _ hout => simp [hout]
    | waiting _ _ _ hout => simp [hout]
    | delivering _ _ _ _ _ hout => simp [hout]
    | done _ _ _ hout => simp [hout]
  never_twice := (dbInv_start.run hrun).nodup.sublist (List.sublist_append_left _ _)
  delivered := by
    rintro before after s₁ s₂ r data rfl hbefore hcall hr hmem hstack
    have hinv₁ := dbInv_start.run hbefore
    have hinv₂ := hinv₁.step hcall
    have hafter : PerVERT.run dbStep s₂ after = some s := by
      rw [run_append, hbefore, Option.bind_some, run_cons, hcall, Option.bind_some] at hrun
      exact hrun
    have hinv := hinv₂.run hafter
    have hcached := cached_of_success hinv₂ hafter hmem
    refine filter_number_eq (hinv.nodup.sublist (List.sublist_append_left _ _)) ?_
    rcases owed_or_delivered hinv₂ hr (call_owed hinv₁ hcall) hafter hmem with howed | hdelivered
    · rw [owed_of_some hcached, hstack] at howed
      cases howed
    · exact hdelivered
  at_once := by
    intro r data s' hmem hcall
    have hcached := cached_of_success dbInv_start hrun hmem
    refine ⟨?_, stack_call hcached hcall⟩
    cases ((dbInv_start.run hrun).phase.step hcall).2 with
    | wait hnone => simp [hcached] at hnone
    | answer d hd _ _ hdelivered =>
        cases hcached.symm.trans hd
        exact hdelivered
    | quiet _ hret => simp at hret

/-- How often the thread has to go on until a function is done. -/
def Frame.turns : Frame → ℕ
  | .cont _ => 1
  | .each _ rest => 2 * rest.length + 1

/-- A function that runs can go on. -/
lemma exists_turn (hstack : s.stack ≠ []) :
    ∃ a s', (a = .ret ∨ a = .next) ∧ dbStep s a = some s' ∧
      (s'.stack.map Frame.turns).sum + 1 = (s.stack.map Frame.turns).sum := by
  match hs : s.stack with
  | [] => exact absurd hs hstack
  | .cont k :: stack =>
      refine ⟨.ret, { s with stack }, Or.inl rfl, by simp [dbStep, hs], ?_⟩
      simp [Frame.turns, Nat.add_comm]
  | .each r (k :: rest) :: stack =>
      refine ⟨.next, DB.callCont { s with stack := .each r rest :: stack } k, Or.inr rfl,
        by simp [dbStep, hs], ?_⟩
      simp [DB.callCont, Frame.turns]
      omega
  | .each r [] :: stack =>
      refine ⟨.next, DB.complete { s with stack } r, Or.inr rfl, by simp [dbStep, hs], ?_⟩
      simp [DB.complete, Frame.turns, Nat.add_comm]

/-- **A delivery is done** when its continuations have returned, and they can. -/
theorem exists_settled (s : DB Data) :
    ∃ acts s', (∀ a ∈ acts, a = .ret ∨ a = .next) ∧ PerVERT.run dbStep s acts = some s' ∧
      s'.stack = [] := by
  generalize hn : (s.stack.map Frame.turns).sum = n
  induction n generalizing s with
  | zero =>
      refine ⟨[], s, by simp, rfl, ?_⟩
      by_contra hstack
      obtain ⟨a, s', -, -, hturns⟩ := exists_turn hstack
      omega
  | succ n ih =>
      have hstack : s.stack ≠ [] := by
        intro hnil
        simp [hnil] at hn
      obtain ⟨a, s₁, ha, hs₁, hturns⟩ := exists_turn hstack
      obtain ⟨acts, s', hacts, hrun, hempty⟩ := ih s₁ (by omega)
      refine ⟨a :: acts, s', ?_, ?_, hempty⟩
      · exact List.forall_mem_cons.mpr ⟨ha, hacts⟩
      · rw [run_cons, hs₁]
        exact hrun

end Runs

/-- A request fails.  The next one succeeds, and the first continuation asks again from within. -/
def retriedCounts : List (DBAction ℕ) :=
  [.call, .error 0, .call, .call, .success 1 7, .next, .call, .ret, .ret, .next, .ret, .next, .call,
    .ret]

theorem retriedCounts_delivers :
    ∃ s, run dbStep .start retriedCounts = some s ∧ DeliversOnce retriedCounts s ∧
      s.delivered = [(1, some 7), (3, some 7), (2, some 7), (4, some 7)] ∧ s.queue = [0, 1] :=
  ⟨_, rfl, f_counts_delivers rfl, rfl, rfl⟩

end PerVERT
