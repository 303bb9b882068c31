import PerVERT.Frontend.Counts
import PerVERT.Frontend.PageRequest

/-!
# What the views are shown

The views ask `DB` about a frame.  It answers from one of its caches, or makes a request, and what
the server says then goes into the cache and to the view.  `init` aborts the requests that are out
and begins with a new `DB`; meanwhile the server may get a new trace.

* `FrameView`, `PageCall.slot` — the caches, and which request fills which place in them.
* `Xhr`, `Browser`, `browserStep` — views, requests, responses and updates in any order.
* `Delivery.Fresh` — a view was told what the server says of a trace that it held since the last
  `init`, for the frame that the view asked about.
* `BrowserInv` — **`BrowserInv.step`** keeps it.
* **`deliveries_coherent`** — every delivery is fresh, no request outlives its `DB`, and no view is
  told twice or forgotten.

The counts have a cache of their own, see `Frontend/Counts.lean`.
-/

namespace PerVERT

/-! ## The caches -/

/-- `__f_mem_status`, `__f_context`, `__f_memscatter`, `__f_memderiv` and `__f_memhisto`. -/
inductive FrameView
  | mem_status
  | context
  | memscatter
  | memderiv
  | memhisto
  deriving DecidableEq, Repr

/-- The cache that a request fills, and the key.  The window is no part of it. -/
def PageCall.slot : PageCall → Option (FrameView × ℤ)
  | f_counts => none
  | f_mem_status frame _ => some (.mem_status, frame)
  | f_context frame => some (.context, frame)
  | f_memscatter frame => some (.memscatter, frame)
  | f_memderiv frame => some (.memderiv, frame)
  | f_memhisto frame => some (.memhisto, frame)

/-! ## The page and the server -/

/-- A request that is out. -/
structure Xhr where
  /-- The number of the call that made it. -/
  number : ℕ
  call : PageCall
  /-- The `DB` that made it. -/
  owner : ℕ
  /-- What the server has said, `none` for an error. -/
  response : Option (Option Json)

/-- A continuation that was called. -/
structure Delivery where
  number : ℕ
  call : PageCall
  /-- `__db` at this moment. -/
  db : Option ℕ
  value : Json

/-- One page and the trace that the server has for it.  Each `DB`, and its queue, is given by the
number of those before it. -/
structure Browser where
  trace : Option Trace
  dbs : ℕ
  /-- `__db`. -/
  db : Option ℕ
  /-- `self`, which is global: the queue that was made last. -/
  self : Option ℕ
  /-- `__data`, by queue. -/
  data : ℕ → List ℕ
  cache : ℕ → FrameView × ℤ → Option Json
  requests : List Xhr
  calls : ℕ
  delivered : List Delivery
  /-- The calls whose requests failed or were aborted. -/
  failed : List ℕ
  /-- The traces that the server held while a `DB` was `__db`. -/
  held : ℕ → List Trace

def Browser.start (trace : Option Trace) : Browser where
  trace
  dbs := 0
  db := none
  self := none
  data := fun _ => []
  cache := fun _ _ => none
  requests := []
  calls := 0
  delivered := []
  failed := []
  held := fun _ => []

/-- `jqXHRQueue.abort`. -/
def jqXHRQueue.abort (s : Browser) : Browser :=
  match s.self with
  | some q =>
      { s with
        requests := s.requests.filter fun x => x.number ∉ s.data q
        failed := s.failed ++ (s.requests.filter fun x => x.number ∈ s.data q).map Xhr.number
        data := Function.update s.data q [] }
  | none => s

/-- `jqXHRQueue.add`. -/
def jqXHRQueue.add (s : Browser) (xhr : ℕ) : Browser :=
  match s.self with
  | some q => { s with data := Function.update s.data q (s.data q ++ [xhr]) }
  | none => s

/-- The `complete` of a request. -/
def jqXHRQueue.completed (s : Browser) : Browser :=
  match s.self with
  | some q => { s with data := Function.update s.data q (complete (s.data q) none) }
  | none => s

/-- `DB(...)`. -/
def newDB (s : Browser) : Browser :=
  { s with
    dbs := s.dbs + 1
    db := some s.dbs
    self := some s.dbs
    data := Function.update s.data s.dbs []
    cache := Function.update s.cache s.dbs fun _ => none
    held := Function.update s.held s.dbs s.trace.toList }

/-- `Pervert.init`. -/
def Pervert.init (s : Browser) : Browser :=
  newDB (if s.db.isSome then jqXHRQueue.abort s else s)

/-- `Pervert.clean`. -/
def Pervert.clean (s : Browser) : Browser := if s.db.isSome then jqXHRQueue.abort s else s

def deliver (s : Browser) (number : ℕ) (call : PageCall) (value : Json) : Browser :=
  { s with delivered := s.delivered ++ [⟨number, call, s.db, value⟩] }

/-- `f_mem_status`, `f_context`, `f_memscatter`, `f_memderiv` and `f_memhisto` of a `DB`. -/
def DB.ask (s : Browser) (db : ℕ) (call : PageCall) (slot : FrameView × ℤ) : Browser :=
  let number := s.calls
  let s := { s with calls := s.calls + 1 }
  match s.cache db slot with
  | some value => deliver s number call value
  | none =>
      jqXHRQueue.add { s with requests := s.requests ++ [⟨number, call, db, none⟩] } number

inductive BrowserAction
  | init
  | clean
  /-- A view calls a function of `__db`. -/
  | ask (call : PageCall)
  /-- The server gets a trace. -/
  | update (t : Trace)
  /-- The server handles the `i`-th of the requests. -/
  | handle (i : ℕ)
  /-- Its answer arrives. -/
  | success (i : ℕ)
  /-- It fails. -/
  | error (i : ℕ)

/-- What the server says. -/
def serverSays (trace : Option Trace) (call : PageCall) : Option (Option Json) :=
  match trace with
  | none => some none
  | some t => (call.answer t).toOption

def browserStep (s : Browser) : BrowserAction → Option Browser
  | .init => some (Pervert.init s)
  | .clean => some (Pervert.clean s)
  | .ask call =>
      match s.db, call.slot with
      | some db, some slot => some (DB.ask s db call slot)
      | _, _ => none
  | .update t =>
      some { s with
        trace := some t
        held := match s.db with
          | some db => Function.update s.held db (t :: s.held db)
          | none => s.held }
  | .handle i =>
      match s.requests[i]? with
      | some ⟨number, call, owner, none⟩ =>
          (serverSays s.trace call).map fun answer =>
            { s with requests := s.requests.set i ⟨number, call, owner, some answer⟩ }
      | _ => none
  | .success i =>
      match s.requests[i]? with
      | some ⟨number, call, owner, some (some value)⟩ =>
          call.slot.map fun slot =>
            jqXHRQueue.completed (deliver { s with
              requests := s.requests.eraseIdx i
              cache := Function.update s.cache owner
                (Function.update (s.cache owner) slot (some value)) } number call value)
      | _ => none
  | .error i =>
      s.requests[i]?.map fun x =>
        jqXHRQueue.completed { s with
          requests := s.requests.eraseIdx i
          failed := s.failed ++ [x.number] }

/-! ## What is wanted -/

/-- The value is what the server says of one of the traces about the place. -/
def SaidOf (traces : List Trace) (slot : FrameView × ℤ) (value : Json) : Prop :=
  ∃ call : PageCall, call.slot = some slot ∧ ∃ t ∈ traces, call.answer t = .ok (some value)

/-- The view is told of a trace that the server held since the last `init`, for its frame. -/
def Delivery.Fresh (s : Browser) (d : Delivery) : Prop :=
  ∃ db slot, d.db = some db ∧ db < s.dbs ∧ d.call.slot = some slot ∧
    SaidOf (s.held db) slot d.value

/-- What the views rely on. -/
structure Coherent (s : Browser) : Prop where
  fresh : ∀ d ∈ s.delivered, d.Fresh s
  /-- No request outlives its `DB`. -/
  current : ∀ x ∈ s.requests, s.db = some x.owner
  /-- Every call was answered, or its request is out, or has failed. -/
  once : (s.delivered.map Delivery.number ++ s.requests.map Xhr.number ++ s.failed).Perm
    (List.range s.calls)

/-! ## The invariant -/

/-- A request that is out: an abort will find it, and its answer is of a trace that was held. -/
structure XhrInv (s : Browser) (x : Xhr) : Prop where
  owner : s.db = some x.owner
  queued : x.number ∈ s.data x.owner
  said : ∀ value, x.response = some (some value) → ∃ t ∈ s.held x.owner,
    x.call.answer t = .ok (some value)

structure BrowserInv (s : Browser) : Prop where
  self : s.self = s.db
  bound : ∀ db, s.db = some db → db < s.dbs
  trace : ∀ db t, s.db = some db → s.trace = some t → t ∈ s.held db
  cache : ∀ db slot value, s.db = some db → s.cache db slot = some value →
    SaidOf (s.held db) slot value
  requests : ∀ x ∈ s.requests, XhrInv s x
  fresh : ∀ d ∈ s.delivered, d.Fresh s
  once : (s.delivered.map Delivery.number ++ s.requests.map Xhr.number ++ s.failed).Perm
    (List.range s.calls)

section Inv

variable {s s' : Browser} {traces traces' : List Trace} {slot : FrameView × ℤ} {value : Json}

lemma SaidOf.mono (h : SaidOf traces slot value) (hsub : traces ⊆ traces') :
    SaidOf traces' slot value := by
  obtain ⟨call, hslot, t, ht, hanswer⟩ := h
  exact ⟨call, hslot, t, hsub ht, hanswer⟩

/-- Deliveries stay fresh as long as nothing is forgotten of a `DB` that was there. -/
lemma Delivery.Fresh.mono {d : Delivery} (h : d.Fresh s) (hdbs : s.dbs ≤ s'.dbs)
    (hheld : ∀ db < s.dbs, s.held db ⊆ s'.held db) : d.Fresh s' := by
  obtain ⟨db, slot, hdb, hlt, hslot, hsaid⟩ := h
  exact ⟨db, slot, hdb, by omega, hslot, hsaid.mono (hheld db hlt)⟩

lemma browserInv_start (trace : Option Trace) : BrowserInv (.start trace) := by
  constructor <;> simp [Browser.start]

lemma BrowserInv.coherent (h : BrowserInv s) : Coherent s :=
  ⟨h.fresh, fun x hx => (h.requests x hx).owner, h.once⟩

/-- **An abort** leaves no request. -/
lemma BrowserInv.abort (h : BrowserInv s) :
    BrowserInv (jqXHRQueue.abort s) ∧ (s.db.isSome → (jqXHRQueue.abort s).requests = []) := by
  cases hself : s.self with
  | none =>
      simp only [jqXHRQueue.abort, hself]
      have hdb := h.self ▸ hself
      exact ⟨h, fun hsome => by simp [hdb] at hsome⟩
  | some q =>
      simp only [jqXHRQueue.abort, hself]
      have hdb : s.db = some q := h.self ▸ hself
      have hall : ∀ x ∈ s.requests, x.number ∈ s.data q := by
        intro x hx
        have howner := (h.requests x hx).owner
        rw [hdb] at howner
        cases howner
        exact (h.requests x hx).queued
      have hnone : (s.requests.filter fun x => x.number ∉ s.data q) = [] :=
        List.filter_eq_nil_iff.mpr fun x hx => by simpa using hall x hx
      have hsome : (s.requests.filter fun x => x.number ∈ s.data q) = s.requests :=
        List.filter_eq_self.mpr fun x hx => by simpa using hall x hx
      refine ⟨⟨hdb.symm, h.bound, h.trace, h.cache, ?_, h.fresh, ?_⟩, fun _ => hnone⟩
      · simp only [hnone]
        intro x hx
        cases hx
      · simp only [hnone, hsome, List.map_nil, List.append_nil]
        refine List.Perm.trans ?_ h.once
        rw [List.append_assoc]
        exact List.Perm.append_left _ List.perm_append_comm

lemma BrowserInv.abortIf (h : BrowserInv s) :
    BrowserInv (Pervert.clean s) ∧ (Pervert.clean s).requests = [] := by
  rw [Pervert.clean]
  split_ifs with hdb
  · exact ⟨h.abort.1, h.abort.2 hdb⟩
  · refine ⟨h, List.eq_nil_iff_forall_not_mem.mpr fun x hx => hdb ?_⟩
    rw [(h.requests x hx).owner]
    rfl

/-- **A new `DB`** is made when no request is out. -/
lemma BrowserInv.newDB (h : BrowserInv s) (hnone : s.requests = []) : BrowserInv (newDB s) := by
  have hheld : ∀ db < s.dbs, s.held db ⊆ (PerVERT.newDB s).held db := by
    intro db hlt
    simp only [PerVERT.newDB]
    rw [Function.update_of_ne (by omega)]
    exact fun _ ht => ht
  constructor
  · rfl
  · rintro db hdb
    cases hdb
    exact Nat.lt_succ_self _
  · rintro db t hdb htrace
    cases hdb
    have htrace' : s.trace = some t := htrace
    simp [PerVERT.newDB, htrace']
  · rintro db slot value hdb hcache
    cases hdb
    simp [PerVERT.newDB] at hcache
  · intro x hx
    rw [show (PerVERT.newDB s).requests = [] from hnone] at hx
    cases hx
  · exact fun d hd => (h.fresh d hd).mono (Nat.le_succ _) hheld
  · exact h.once

/-- **A view is told** what is fresh. -/
lemma fresh_deliver (h : ∀ d ∈ s.delivered, d.Fresh s) {number db : ℕ} {call : PageCall}
    (hdb : s.db = some db) (hlt : db < s.dbs) (hslot : call.slot = some slot)
    (hsaid : SaidOf (s.held db) slot value) :
    ∀ d ∈ (deliver s number call value).delivered, d.Fresh (deliver s number call value) := by
  intro d hd
  rcases List.mem_append.mp hd with hd | hd
  · exact h d hd
  · cases List.mem_singleton.mp hd
    exact ⟨db, slot, hdb, hlt, hslot, hsaid⟩

/-- A request stays in order while nothing of its `DB` is lost. -/
lemma XhrInv.mono {x : Xhr} (h : XhrInv s x) (hdb : s'.db = s.db)
    (hdata : s.data x.owner ⊆ s'.data x.owner) (hheld : s.held x.owner ⊆ s'.held x.owner) :
    XhrInv s' x := by
  refine ⟨hdb.trans h.owner, hdata h.queued, fun value hvalue => ?_⟩
  obtain ⟨t, ht, hanswer⟩ := h.said value hvalue
  exact ⟨t, hheld ht, hanswer⟩

/-- Nothing is taken out of the queue. -/
lemma completed_eq (s : Browser) : jqXHRQueue.completed s = s := by
  rw [jqXHRQueue.completed]
  split
  · simp [jqXHRQueue.complete]
  · rfl

/-- The next number, wherever it is put. -/
lemma perm_range_succ {before after : List ℕ} {n : ℕ} (h : (before ++ after).Perm (List.range n)) :
    (before ++ n :: after).Perm (List.range (n + 1)) := by
  rw [List.range_succ]
  refine List.perm_middle.trans ((List.Perm.cons n h).trans ?_)
  exact (List.perm_append_singleton n (List.range n)).symm

/-- **A view asks.** -/
lemma BrowserInv.ask (h : BrowserInv s) {db : ℕ} {call : PageCall} (hdb : s.db = some db)
    (hslot : call.slot = some slot) : BrowserInv (DB.ask s db call slot) := by
  have honce := h.once
  rw [List.append_assoc] at honce
  cases hcache : s.cache db slot with
  | some value =>
      simp only [DB.ask, hcache]
      refine ⟨h.self, h.bound, h.trace, h.cache, fun x hx => ?_, ?_, ?_⟩
      · exact (h.requests x hx).mono rfl (List.Subset.refl _) (List.Subset.refl _)
      · exact fresh_deliver h.fresh hdb (h.bound db hdb) hslot (h.cache db slot value hdb hcache)
      · simpa [deliver] using perm_range_succ honce
  | none =>
      have hself : s.self = some db := h.self.trans hdb
      simp only [DB.ask, hcache, jqXHRQueue.add, hself]
      refine ⟨hdb.symm, h.bound, h.trace, h.cache, fun x hx => ?_, h.fresh, ?_⟩
      · rcases List.mem_append.mp hx with hx | hx
        · have hxinv := h.requests x hx
          have howner : x.owner = db := Option.some.inj (hxinv.owner.symm.trans hdb)
          refine hxinv.mono rfl ?_ (List.Subset.refl _)
          simp only [howner, Function.update_self]
          exact List.subset_append_left _ _
        · cases List.mem_singleton.mp hx
          exact ⟨hdb, by simp, fun value hvalue => by simp at hvalue⟩
      · simpa using perm_range_succ h.once

/-- **The server** gets a trace. -/
lemma BrowserInv.update (h : BrowserInv s) {t : Trace}
    (hs : browserStep s (.update t) = some s') : BrowserInv s' := by
  simp only [browserStep, Option.some.injEq] at hs
  have hheld : (∀ db, s.held db ⊆ s'.held db) ∧ ∀ db, s.db = some db → t ∈ s'.held db := by
    subst hs
    cases hdb : s.db with
    | none => exact ⟨fun _ => List.Subset.refl _, fun db hdb' => by cases hdb'⟩
    | some db =>
        refine ⟨fun db' => ?_, fun db' hdb' => ?_⟩
        · by_cases heq : db' = db
          · subst heq
            simp
          · simp [heq]
        · cases hdb'
          simp
  subst hs
  refine ⟨h.self, h.bound, fun db t' hdb ht' => ?_, fun db slot value hdb hcache => ?_,
    fun x hx => ?_, fun d hd => ?_, h.once⟩
  · cases ht'
    exact hheld.2 db hdb
  · exact (h.cache db slot value hdb hcache).mono (hheld.1 db)
  · exact (h.requests x hx).mono rfl (List.Subset.refl _) (hheld.1 _)
  · exact (h.fresh d hd).mono (le_refl _) fun db _ => hheld.1 db

/-- **The server** handles a request. -/
lemma BrowserInv.handle (h : BrowserInv s) {i : ℕ} (hs : browserStep s (.handle i) = some s') :
    BrowserInv s' := by
  simp only [browserStep] at hs
  split at hs
  · next number call owner hget =>
      obtain ⟨answer, hanswer, rfl⟩ := Option.map_eq_some_iff.mp hs
      have hxinv := h.requests _ (List.mem_of_getElem? hget)
      refine ⟨h.self, h.bound, h.trace, h.cache, fun y hy => ?_, h.fresh, ?_⟩
      · rcases List.mem_or_eq_of_mem_set hy with hy | rfl
        · exact (h.requests y hy).mono rfl (List.Subset.refl _) (List.Subset.refl _)
        · refine ⟨hxinv.owner, hxinv.queued, ?_⟩
          rintro value ⟨⟩
          cases htrace : s.trace with
          | none => simp [serverSays, htrace] at hanswer
          | some t =>
              refine ⟨t, h.trace owner t hxinv.owner htrace, ?_⟩
              simp only [serverSays, htrace] at hanswer
              cases hcall : call.answer t with
              | ok answer => simpa [hcall, Except.toOption] using hanswer
              | error e => simp [hcall, Except.toOption] at hanswer
      · obtain ⟨hi, hx⟩ := List.getElem?_eq_some_iff.mp hget
        have hi' : i < (s.requests.map Xhr.number).length := by simpa using hi
        have hnumber : (s.requests.map Xhr.number)[i] = number := by simp [hx]
        have hsame : (s.requests.set i ⟨number, call, owner, some answer⟩).map Xhr.number
            = s.requests.map Xhr.number := by
          rw [List.map_set, ← hnumber, List.set_getElem_self]
        simp only [hsame]
        exact h.once
  · cases hs

lemma numbers_eraseIdx {i : ℕ} {x : Xhr} (hget : s.requests[i]? = some x) :
    (x.number :: (s.requests.eraseIdx i).map Xhr.number).Perm (s.requests.map Xhr.number) := by
  obtain ⟨hi, rfl⟩ := List.getElem?_eq_some_iff.mp hget
  exact (List.getElem_cons_eraseIdx_perm hi).map Xhr.number

/-- **An answer arrives.** -/
lemma BrowserInv.success (h : BrowserInv s) {i : ℕ} (hs : browserStep s (.success i) = some s') :
    BrowserInv s' := by
  simp only [browserStep] at hs
  split at hs
  · next number call owner value hget =>
      obtain ⟨slot, hslot, rfl⟩ := Option.map_eq_some_iff.mp hs
      have hxinv := h.requests _ (List.mem_of_getElem? hget)
      have hdb : s.db = some owner := hxinv.owner
      obtain ⟨t, ht, hanswer⟩ := hxinv.said value rfl
      have hsaid : SaidOf (s.held owner) slot value := ⟨call, hslot, t, ht, hanswer⟩
      rw [completed_eq]
      refine ⟨h.self, h.bound, h.trace, fun db slot' value' hdb' hcache => ?_, fun y hy => ?_, ?_,
        ?_⟩
      · cases hdb.symm.trans hdb'
        simp only [deliver, Function.update_self, Function.update_apply] at hcache
        split_ifs at hcache with hslot'
        · cases hcache
          rw [hslot']
          exact hsaid
        · exact h.cache owner slot' value' hdb hcache
      · exact (h.requests y (List.mem_of_mem_eraseIdx hy)).mono rfl (List.Subset.refl _)
          (List.Subset.refl _)
      · exact fresh_deliver h.fresh hdb (h.bound owner hdb) hslot hsaid
      · have hnumbers := (numbers_eraseIdx hget).append_left (s.delivered.map Delivery.number)
        simpa [deliver] using (hnumbers.append_right s.failed).trans h.once
  · cases hs

/-- **A request fails.** -/
lemma BrowserInv.error (h : BrowserInv s) {i : ℕ} (hs : browserStep s (.error i) = some s') :
    BrowserInv s' := by
  obtain ⟨x, hget, rfl⟩ := Option.map_eq_some_iff.mp hs
  rw [completed_eq]
  refine ⟨h.self, h.bound, h.trace, h.cache, fun y hy => ?_, h.fresh, ?_⟩
  · exact (h.requests y (List.mem_of_mem_eraseIdx hy)).mono rfl (List.Subset.refl _)
      (List.Subset.refl _)
  · have hnumbers := (numbers_eraseIdx hget).append_left (s.delivered.map Delivery.number)
    refine List.Perm.trans ?_ ((hnumbers.append_right s.failed).trans h.once)
    simp only [List.append_assoc, List.cons_append]
    refine List.Perm.append_left _ ?_
    rw [← List.append_assoc]
    exact List.perm_append_singleton _ _

/-- **One step.** -/
theorem BrowserInv.step (h : BrowserInv s) {a : BrowserAction} (hs : browserStep s a = some s') :
    BrowserInv s' := by
  cases a with
  | init =>
      cases hs
      exact (h.abortIf.1).newDB h.abortIf.2
  | clean =>
      cases hs
      exact h.abortIf.1
  | ask call =>
      simp only [browserStep] at hs
      split at hs
      · next db slot hdb hslot =>
          cases hs
          exact h.ask hdb hslot
      · cases hs
  | update t => exact h.update hs
  | handle i => exact h.handle hs
  | success i => exact h.success hs
  | error i => exact h.error hs

/-- **What the views are shown.**  In any order of calls, responses, failures, updates of the
server, `init`s and `clean`s: every view is told what the server says, for the frame it asked about,
of a trace that the server held since the last `init`, whether it comes from a cache or with a
response; no request of an earlier `DB` is out; and no continuation is called twice or lost.  A
cache is filled with answers of its own `DB` only, and `init` aborts what the one before still waits
for. -/
theorem deliveries_coherent {trace : Option Trace} {acts : List BrowserAction}
    (hrun : run browserStep (.start trace) acts = some s) : Coherent s :=
  (run_induction (I := fun _ s => BrowserInv s) (browserInv_start trace)
    (fun _ h hs => h.step hs) hrun).coherent

end Inv

/-- A stack is asked for twice, and told twice; while a third request is out, the server gets
another trace and the page begins again. -/
def twoInits : List BrowserAction :=
  [.init, .ask (.f_context 0), .handle 0, .success 0, .ask (.f_context 0), .ask (.f_memhisto 2),
    .handle 0, .update twoBlocks, .init, .ask (.f_context 0), .handle 0, .success 0]

theorem twoInits_coherent : ∃ s, run browserStep (.start (some twoBlocks)) twoInits = some s ∧
    s.delivered.length = 3 ∧ s.failed = [2] ∧ Coherent s := by
  have hrun : ∃ s, run browserStep (.start (some twoBlocks)) twoInits = some s ∧
      s.delivered.length = 3 ∧ s.failed = [2] := ⟨_, rfl, rfl, rfl⟩
  obtain ⟨s, hs, hrest⟩ := hrun
  exact ⟨s, hs, hrest.1, hrest.2, deliveries_coherent hs⟩

end PerVERT
