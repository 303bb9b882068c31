import PerVERT.Core.Fault
import PerVERT.Core.HexText
import PerVERT.Core.Transition
import Mathlib.Logic.Function.Basic

/-!
# Change notifications

`/pp/update` replaces the trace of an executable and then increments a counter that all
executables share.  A page watches one executable: it polls `/f/status`, and calls `pv.init()` when
it sees the counter change while the status is GOOD.

* `PollAction`, `PollState`, `pollStep` — any number of update requests, step by step, and the
  polls of one page, in any order.
* `Notified` — `pv.init()` has been called since the trace was last replaced.
* `Heeded` — the condition on a step: an answer that is not GOOD does not use up the last change.
* **`poll_notifies_iff`** — a poll after the last update has finished finds the page notified, or
  notifies it, just if the steps since that update arrived meet the condition.
  `readAfterUpdate_lost` is a run in which one does not.

The counter is an `int` that is only ever incremented.  It is kept as the number of increments,
of which the code sees the low 32 bits: `toInt changes`.
-/

namespace PerVERT

/-! ## The system -/

/-- How far an update request has come. -/
inductive Phase
  /-- The `DataManager` has been found or created. -/
  | registered
  /-- It holds the lock. -/
  | locked
  /-- It holds the lock, and the new trace is in place. -/
  | replaced
  /-- It has released the lock. -/
  | unlocked
  /-- It has called `logChange`. -/
  | finished
  deriving DecidableEq, Repr

/-- A `pp_update` request. -/
structure Update where
  exec : Text
  phase : Phase
  deriving DecidableEq, Repr

/-- The text after the counter in a poll response. -/
inductive Status
  | unknown
  | BUSY
  | GOOD
  deriving DecidableEq, Repr

/-- Where the poll of the page is: its status is sampled first, then the counter is read. -/
inductive Poll
  | idle
  | sampled (status : Status)
  | answered (status : Status) (changes : ℕ)
  deriving DecidableEq, Repr

/-- What happens to the trace of an executable and to the page. -/
inductive Note
  | replaced (exec : Text)
  | init
  | clean (status : Status)
  deriving DecidableEq, Repr

/-- The server and the page. -/
structure PollState where
  /-- `_dms.count(exec)`. -/
  known : Text → Bool
  /-- `the_lock` of the executable's `DataManager`. -/
  locked : Text → Bool
  /-- How often `_lastChangeID` has been incremented. -/
  changes : ℕ
  /-- The update requests, in the order they arrived. -/
  updates : List Update
  poll : Poll
  /-- The change the page last saw; its `lastChangeID` is `toInt seen`. -/
  seen : ℤ
  /-- What has happened, newest first. -/
  log : List Note

/-- The server has just started, and the page was just loaded. -/
def PollState.start : PollState where
  known := fun _ => false
  locked := fun _ => false
  changes := 0
  updates := []
  poll := .idle
  seen := -1
  log := []

/-- An update request arrives, the `u`-th one takes a step, or the poll does. -/
inductive PollAction
  | arrive (exec : Text)
  | lock (u : ℕ)
  | replace (u : ℕ)
  | unlock (u : ℕ)
  | logChange (u : ℕ)
  | sample
  | readChangeID
  | handle
  | fail
  deriving DecidableEq, Repr

/-- The update request `u` goes from one phase to the next. -/
def PollState.setPhase (s : PollState) (u : ℕ) (x : Update) (phase : Phase) : PollState :=
  { s with updates := s.updates.set u { x with phase } }

/-- The steps of `pp_update`, each enabled in the phase before it. -/
def updateStep (s : PollState) (u : ℕ) (x : Update) : PollAction → Option PollState
  | .lock _ =>
      if x.phase = .registered ∧ s.locked x.exec = false then
        some (({ s with locked := Function.update s.locked x.exec true }).setPhase u x .locked)
      else none
  | .replace _ =>
      if x.phase = .locked then
        some (({ s with log := .replaced x.exec :: s.log }).setPhase u x .replaced)
      else none
  | .unlock _ =>
      if x.phase = .replaced then
        some (({ s with locked := Function.update s.locked x.exec false }).setPhase u x .unlocked)
      else none
  | .logChange _ =>
      if x.phase = .unlocked then
        some (({ s with changes := s.changes + 1 }).setPhase u x .finished)
      else none
  | _ => none

/-- The status that `f_status` finds for an executable. -/
def sampleStatus (s : PollState) (exec : Text) : Status :=
  if s.known exec = false then .unknown
  else if s.locked exec then .BUSY
  else .GOOD

/-- `handlePollResult`, for a poll that succeeded. -/
def handlePollResult (s : PollState) (status : Status) (changes : ℕ) : PollState :=
  if toInt s.seen ≠ toInt changes then
    { s with
      seen := changes
      log := (if status = .GOOD then .init else .clean status) :: s.log }
  else s

/-- One step, when the page watches `exec`.  A poll that fails or times out is not handled, and
the page polls again. -/
def pollStep (exec : Text) (s : PollState) : PollAction → Option PollState
  | .arrive e =>
      some { s with
        known := Function.update s.known e true
        updates := s.updates ++ [⟨e, .registered⟩] }
  | .sample =>
      if s.poll = .idle then some { s with poll := .sampled (sampleStatus s exec) } else none
  | .readChangeID =>
      match s.poll with
      | .sampled status => some { s with poll := .answered status s.changes }
      | _ => none
  | .handle =>
      match s.poll with
      | .answered status changes => some { handlePollResult s status changes with poll := .idle }
      | _ => none
  | .fail => if s.poll = .idle then none else some { s with poll := .idle }
  | .lock u => s.updates[u]?.bind fun x => updateStep s u x (.lock u)
  | .replace u => s.updates[u]?.bind fun x => updateStep s u x (.replace u)
  | .unlock u => s.updates[u]?.bind fun x => updateStep s u x (.unlock u)
  | .logChange u => s.updates[u]?.bind fun x => updateStep s u x (.logChange u)

/-! ## What is wanted, and when it is reached -/

/-- `pv.init()` has been called since the trace of the executable was last replaced. -/
def Notified (exec : Text) : List Note → Prop
  | [] => True
  | .init :: _ => True
  | .replaced e :: log => e ≠ exec ∧ Notified exec log
  | .clean _ :: log => Notified exec log

/-- Every update request has finished. -/
def PollState.AllFinished (s : PollState) : Prop :=
  ∀ x ∈ s.updates, x.phase = .finished

instance (s : PollState) : Decidable s.AllFinished :=
  inferInstanceAs (Decidable (∀ x ∈ s.updates, x.phase = .finished))

/-- An answer may come while more is to come: a request has not finished, or the counter has gone
on.  The last one may come when the page has been notified, or it must be GOOD, and must not look
like an earlier change that is still the one the page saw last. -/
def HeededAnswer (exec : Text) (s : PollState) (status : Status) (changes : ℕ) : Prop :=
  ¬ s.AllFinished ∨ changes < s.changes ∨ Notified exec s.log ∨
    (status = .GOOD ∧ (toInt s.seen = toInt changes → s.seen = changes))

/-- The condition on a step: it is about the answers that are handled. -/
def Heeded (exec : Text) (s : PollState) : PollAction → Prop
  | .handle =>
      match s.poll with
      | .answered status changes => HeededAnswer exec s status changes
      | _ => True
  | _ => True

instance (exec : Text) : ∀ log, Decidable (Notified exec log)
  | [] => isTrue trivial
  | .init :: _ => isTrue trivial
  | .replaced e :: log =>
      have : Decidable (Notified exec log) := instDecidableNotified exec log
      inferInstanceAs (Decidable (e ≠ exec ∧ Notified exec log))
  | .clean _ :: log => instDecidableNotified exec log

instance (exec : Text) (s : PollState) (status : Status) (changes : ℕ) :
    Decidable (HeededAnswer exec s status changes) :=
  inferInstanceAs (Decidable (_ ∨ _ ∨ _ ∨ (_ ∧ (_ → _))))

instance (exec : Text) : ∀ s a, Decidable (Heeded exec s a)
  | ⟨known, locked, n, updates, .answered status changes, seen, log⟩, .handle =>
      inferInstanceAs (Decidable (HeededAnswer exec
        ⟨known, locked, n, updates, .answered status changes, seen, log⟩ status changes))
  | ⟨_, _, _, _, .idle, _, _⟩, .handle | ⟨_, _, _, _, .sampled _, _, _⟩, .handle => isTrue trivial
  | _, .arrive _ | _, .lock _ | _, .replace _ | _, .unlock _ | _, .logChange _ | _, .sample
  | _, .readChangeID | _, .fail => isTrue trivial

/-! ## The invariant -/

section Invariant

variable {exec : Text} {s s' : PollState} {a : PollAction}

/-- Somebody holds the lock of the executable. -/
def Held (s : PollState) (e : Text) : Prop :=
  ∃ (u : ℕ) (x : Update),
    s.updates[u]? = some x ∧ x.exec = e ∧ (x.phase = .locked ∨ x.phase = .replaced)

/-- What holds in every state. -/
structure PollInv (s : PollState) : Prop where
  /-- Somebody holds every lock that is taken. -/
  lock_held : ∀ e, s.locked e = true → Held s e
  /-- Whoever updates an executable has registered it. -/
  registered : ∀ x ∈ s.updates, s.known x.exec = true
  replaced_known : ∀ e, .replaced e ∈ s.log → s.known e = true
  /-- The page is never ahead of the counter, nor of the answer it waits for. -/
  seen_le : s.seen ≤ s.changes
  answer_le : ∀ status changes, s.poll = .answered status changes →
    s.seen ≤ changes ∧ changes ≤ s.changes

lemma pollInv_start : PollInv .start := by
  constructor <;> simp [PollState.start]

lemma not_allFinished {x : Update} (h : x ∈ s.updates) (hx : x.phase ≠ .finished) :
    ¬ s.AllFinished :=
  fun hall => hx (hall x h)

section SetPhase

variable {u v : ℕ} {x y : Update} {phase : Phase}

lemma setPhase_self (hu : s.updates[u]? = some x) :
    (s.setPhase u x phase).updates[u]? = some { x with phase } := by
  simp [PollState.setPhase, lt_of_getElem? hu]

lemma setPhase_of_ne (hv : v ≠ u) : (s.setPhase u x phase).updates[v]? = s.updates[v]? := by
  simp [PollState.setPhase, List.getElem?_set_ne (Ne.symm hv)]

lemma setPhase_not_allFinished (hu : s.updates[u]? = some x) (h : phase ≠ .finished) :
    ¬ (s.setPhase u x phase).AllFinished :=
  not_allFinished (List.mem_of_getElem? (setPhase_self hu)) h

/-- A lock stays held unless its holder moves on. -/
lemma Held.setPhase {e : Text} (h : Held s e) (hu : s.updates[u]? = some x)
    (hkeep : x.exec = e → x.phase = .locked ∨ x.phase = .replaced →
      phase = .locked ∨ phase = .replaced) : Held (s.setPhase u x phase) e := by
  obtain ⟨v, y, hv, hye, hphase⟩ := h
  by_cases hvu : v = u
  · subst hvu
    obtain rfl : x = y := Option.some.inj (hu.symm.trans hv)
    exact ⟨v, { x with phase }, setPhase_self hu, hye, hkeep hye hphase⟩
  · exact ⟨v, y, (setPhase_of_ne hvu).trans hv, hye, hphase⟩

lemma registered_setPhase (h : ∀ x ∈ s.updates, s.known x.exec = true)
    (hu : s.updates[u]? = some x) :
    ∀ y ∈ (s.setPhase u x phase).updates, s.known y.exec = true := by
  intro y hy
  rcases List.mem_or_eq_of_mem_set hy with hy | rfl
  · exact h y hy
  · exact h x (List.mem_of_getElem? hu)

end SetPhase

/-- A request takes a step: what is invariant stays so. -/
lemma PollInv.updateStep (h : PollInv s) {u : ℕ} {x : Update} (hu : s.updates[u]? = some x)
    (hstep : updateStep s u x a = some s') : PollInv s' := by
  cases a with
  | lock v =>
      simp only [PerVERT.updateStep] at hstep
      split_ifs at hstep with hguard
      cases Option.some.inj hstep
      refine ⟨fun e he => ?_, registered_setPhase h.registered hu, h.replaced_known, h.seen_le,
        h.answer_le⟩
      by_cases hex : e = x.exec
      · exact ⟨u, { x with phase := .locked }, setPhase_self hu, hex.symm, Or.inl rfl⟩
      · have hold : Held s e := h.lock_held e (by
          simpa [PollState.setPhase, Function.update_of_ne hex] using he)
        exact @Held.setPhase s u x .locked e hold hu (fun heq => absurd heq.symm hex)
  | replace v =>
      simp only [PerVERT.updateStep] at hstep
      split_ifs at hstep with hguard
      cases Option.some.inj hstep
      refine ⟨fun e he => ?_, registered_setPhase h.registered hu, fun e he => ?_, h.seen_le,
        h.answer_le⟩
      · exact @Held.setPhase s u x .replaced e (h.lock_held e he) hu (fun _ _ => Or.inr rfl)
      · rcases List.mem_cons.mp he with heq | he
        · cases heq
          exact h.registered x (List.mem_of_getElem? hu)
        · exact h.replaced_known e he
  | unlock v =>
      simp only [PerVERT.updateStep] at hstep
      split_ifs at hstep with hguard
      cases Option.some.inj hstep
      refine ⟨fun e he => ?_, registered_setPhase h.registered hu, h.replaced_known, h.seen_le,
        h.answer_le⟩
      by_cases hex : e = x.exec
      · simp [PollState.setPhase, hex] at he
      · have hold : Held s e := h.lock_held e (by
          simpa [PollState.setPhase, Function.update_of_ne hex] using he)
        exact @Held.setPhase s u x .unlocked e hold hu (fun heq => absurd heq.symm hex)
  | logChange v =>
      simp only [PerVERT.updateStep] at hstep
      split_ifs at hstep with hguard
      cases Option.some.inj hstep
      have hseen : s.seen ≤ ((s.changes + 1 : ℕ) : ℤ) := by
        have := h.seen_le
        omega
      refine ⟨fun e he => ?_, registered_setPhase h.registered hu, h.replaced_known, hseen,
        fun status changes hp => ?_⟩
      · refine @Held.setPhase s u x .finished e (h.lock_held e he) hu (fun _ hphase => ?_)
        rw [hguard] at hphase
        rcases hphase with hphase | hphase <;> cases hphase
      · exact (h.answer_le status changes hp).imp id Nat.le_succ_of_le
  | arrive _ | sample | readChangeID | handle | fail => cases hstep

/-- The request was not finished, and it is not now, or it has just moved the counter. -/
lemma updateStep_progress {u : ℕ} {x : Update} (hu : s.updates[u]? = some x)
    (hstep : updateStep s u x a = some s') :
    x.phase ≠ .finished ∧ s'.updates.length = s.updates.length ∧ s'.seen = s.seen ∧
      (¬ s'.AllFinished ∨ s.changes < s'.changes) := by
  cases a with
  | lock v | replace v | unlock v =>
      simp only [updateStep] at hstep
      split_ifs at hstep with hguard
      cases Option.some.inj hstep
      refine ⟨by simp [hguard], List.length_set, rfl,
        Or.inl (setPhase_not_allFinished hu (by simp))⟩
  | logChange v =>
      simp only [updateStep] at hstep
      split_ifs at hstep with hguard
      cases Option.some.inj hstep
      exact ⟨by simp [hguard], List.length_set, rfl, Or.inr (Nat.lt_succ_self _)⟩
  | arrive _ | sample | readChangeID | handle | fail => cases hstep

/-- An executable without a trace has nothing to notify of. -/
lemma notified_of_notMem : ∀ {log : List Note}, .replaced exec ∉ log → Notified exec log
  | [], _ => trivial
  | .init :: _, _ => trivial
  | .replaced e :: log, h => by
      simp only [List.mem_cons, Note.replaced.injEq, not_or] at h
      exact ⟨Ne.symm h.1, notified_of_notMem h.2⟩
  | .clean _ :: log, h => by
      have hlog : .replaced exec ∉ log := fun hmem => h (List.mem_cons_of_mem _ hmem)
      show Notified exec log
      exact notified_of_notMem hlog

/-- What `handlePollResult` writes down never says that a trace was replaced. -/
lemma replaced_handlePollResult {status : Status} {changes : ℕ} {e : Text} :
    .replaced e ∈ (handlePollResult s status changes).log ↔ .replaced e ∈ s.log := by
  rw [handlePollResult]
  split_ifs with _ hgood
  · simp
  · simp
  · rfl

/-- A page that was notified before an answer is so after it. -/
lemma Notified.handlePollResult {status : Status} {changes : ℕ} (h : Notified exec s.log) :
    Notified exec (handlePollResult s status changes).log := by
  rw [PerVERT.handlePollResult]
  split_ifs with _ hgood
  · trivial
  · exact h
  · exact h

/-- A GOOD answer that shows a change notifies the page. -/
lemma notified_good {changes : ℕ} (hne : toInt s.seen ≠ toInt changes) :
    Notified exec (handlePollResult s .GOOD changes).log := by
  rw [handlePollResult, if_pos hne]
  trivial

/-- Everything that can happen: a request arrives or takes a step, a poll begins, is answered or
fails, or an answer is handled. -/
lemma pollStep_cases (h : pollStep exec s a = some s') :
    (Heeded exec s a ∧ ∃ e, s' = { s with
      known := Function.update s.known e true
      updates := s.updates ++ [⟨e, .registered⟩] }) ∨
    (Heeded exec s a ∧ ∃ u x, s.updates[u]? = some x ∧ updateStep s u x a = some s') ∨
    (Heeded exec s a ∧ ∃ p, s' = { s with poll := p } ∧
      ∀ status changes, p = .answered status changes → changes = s.changes) ∨
    ∃ status changes, a = .handle ∧ s.poll = .answered status changes ∧
      s' = { handlePollResult s status changes with poll := .idle } := by
  cases a with
  | arrive e => exact Or.inl ⟨trivial, e, (Option.some.inj h).symm⟩
  | lock u | replace u | unlock u | logChange u =>
      obtain ⟨x, hu, h⟩ := Option.bind_eq_some_iff.mp h
      exact Or.inr (Or.inl ⟨trivial, u, x, hu, h⟩)
  | sample =>
      simp only [pollStep] at h
      split_ifs at h
      exact Or.inr (Or.inr (Or.inl ⟨trivial, _, (Option.some.inj h).symm, by simp⟩))
  | readChangeID =>
      simp only [pollStep] at h
      split at h
      · refine Or.inr (Or.inr (Or.inl ⟨trivial, _, (Option.some.inj h).symm, ?_⟩))
        rintro status changes heq
        cases heq
        rfl
      · cases h
  | handle =>
      simp only [pollStep] at h
      split at h
      · next status changes hpoll =>
          exact Or.inr (Or.inr (Or.inr ⟨status, changes, rfl, hpoll, (Option.some.inj h).symm⟩))
      · cases h
  | fail =>
      simp only [pollStep] at h
      split_ifs at h
      exact Or.inr (Or.inr (Or.inl ⟨trivial, _, (Option.some.inj h).symm, by simp⟩))

/-- **One step**: what is invariant stays so. -/
lemma PollInv.step (h : PollInv s) (hstep : pollStep exec s a = some s') : PollInv s' := by
  rcases pollStep_cases hstep with ⟨-, e, rfl⟩ | ⟨-, u, x, hu, hstep⟩ | ⟨-, p, rfl, hp⟩ |
    ⟨status, changes, -, hpoll, rfl⟩
  · -- a request arrives
    have hknown : ∀ e', s.known e' = true → Function.update s.known e true e' = true := by
      intro e' he'
      by_cases heq : e' = e
      · rw [heq, Function.update_self]
      · rw [Function.update_of_ne heq, he']
    refine ⟨fun e' he' => ?_, fun x hx => ?_, fun e' he' => hknown e' (h.replaced_known e' he'),
      h.seen_le, h.answer_le⟩
    · obtain ⟨u, x, hu, hxe, hphase⟩ := h.lock_held e' he'
      exact ⟨u, x, getElem?_snoc.mpr (Or.inl hu), hxe, hphase⟩
    · rcases List.mem_append.mp hx with hx | hx
      · exact hknown _ (h.registered x hx)
      · rw [List.mem_singleton.mp hx]
        exact Function.update_self ..
  · exact h.updateStep hu hstep
  · -- a poll begins, is answered or fails
    refine ⟨h.lock_held, h.registered, h.replaced_known, h.seen_le, fun status changes heq => ?_⟩
    rw [hp status changes heq]
    exact ⟨h.seen_le, Nat.le_refl _⟩
  · -- an answer is handled
    obtain ⟨-, hanswer⟩ := h.answer_le status changes hpoll
    have hknown : ∀ e, .replaced e ∈ (handlePollResult s status changes).log → s.known e = true :=
      fun e he => h.replaced_known e (replaced_handlePollResult.mp he)
    by_cases hne : toInt s.seen ≠ toInt changes
    · rw [handlePollResult, if_pos hne] at hknown ⊢
      exact ⟨h.lock_held, h.registered, hknown, Int.ofNat_le.mpr hanswer, by simp⟩
    · rw [handlePollResult, if_neg hne]
      exact ⟨h.lock_held, h.registered, h.replaced_known, h.seen_le, by simp⟩

/-! ## What is owed, and what is lost -/

/-- A page that has not been notified will still see a change. -/
def Owed (exec : Text) (s : PollState) : Prop :=
  ¬ Notified exec s.log → ¬ s.AllFinished ∨ s.seen < s.changes

/-- A page that has not been notified, and takes the last change for the one it saw. -/
structure Lost (exec : Text) (s : PollState) : Prop where
  allFinished : s.AllFinished
  not_notified : ¬ Notified exec s.log
  looks_seen : toInt s.seen = toInt s.changes
  answer_last : ∀ status changes, s.poll = .answered status changes → changes = s.changes

/-- A heeded step leaves the page owed what it was owed. -/
lemma Owed.step (hinv : PollInv s) (h : Owed exec s) (hheed : Heeded exec s a)
    (hstep : pollStep exec s a = some s') : Owed exec s' := by
  rcases pollStep_cases hstep with ⟨-, e, rfl⟩ | ⟨-, u, x, hu, hstep⟩ | ⟨-, p, rfl, -⟩ |
    ⟨status, changes, rfl, hpoll, rfl⟩
  · exact fun _ => Or.inl (@not_allFinished _ ⟨e, .registered⟩ (by simp) (by simp))
  · obtain ⟨-, -, hseen, hprogress⟩ := updateStep_progress hu hstep
    refine fun _ => hprogress.imp id fun hlt => ?_
    rw [hseen]
    have := hinv.seen_le
    omega
  · exact h
  · have hanswered : HeededAnswer exec s status changes := by simpa [Heeded, hpoll] using hheed
    by_cases hne : toInt s.seen ≠ toInt changes
    · intro hnot
      have hnot : ¬ Notified exec (handlePollResult s status changes).log := hnot
      rw [handlePollResult, if_pos hne]
      rcases hanswered with hall | hlt | hnotified | ⟨rfl, -⟩
      · exact Or.inl hall
      · exact Or.inr (Int.ofNat_lt.mpr hlt)
      · exact absurd hnotified.handlePollResult hnot
      · exact absurd (notified_good hne) hnot
    · rw [handlePollResult, if_neg hne]
      exact h

/-- A step that is not heeded loses the last change. -/
lemma lost_of_not_heeded (hinv : PollInv s) (hstep : pollStep exec s a = some s')
    (hheed : ¬ Heeded exec s a) : Lost exec s' := by
  rcases pollStep_cases hstep with ⟨h, -⟩ | ⟨h, -⟩ | ⟨h, -⟩ | ⟨status, changes, rfl, hpoll, rfl⟩
  · exact absurd h hheed
  · exact absurd h hheed
  · exact absurd h hheed
  · have hanswered : ¬ HeededAnswer exec s status changes := by
      simpa [Heeded, hpoll] using hheed
    simp only [HeededAnswer, not_or, not_not, Nat.not_lt] at hanswered
    obtain ⟨hall, hle, hnot, hbad⟩ := hanswered
    have hlast : changes = s.changes := Nat.le_antisymm (hinv.answer_le status changes hpoll).2 hle
    by_cases hne : toInt s.seen ≠ toInt changes
    · have hclean : status ≠ .GOOD := fun hgood => hbad ⟨hgood, fun heq => absurd heq hne⟩
      rw [handlePollResult, if_pos hne, if_neg hclean]
      exact ⟨hall, hnot, by rw [hlast], by simp⟩
    · rw [handlePollResult, if_neg hne]
      exact ⟨hall, hnot, by rw [← hlast]; exact not_not.mp hne, by simp⟩

/-- What is lost stays so, until a request arrives. -/
lemma Lost.step (h : Lost exec s) (hstep : pollStep exec s a = some s')
    (hlength : s'.updates.length = s.updates.length) : Lost exec s' := by
  rcases pollStep_cases hstep with ⟨-, e, rfl⟩ | ⟨-, u, x, hu, hstep⟩ | ⟨-, p, rfl, hp⟩ |
    ⟨status, changes, -, hpoll, rfl⟩
  · simp at hlength
  · exact absurd (h.allFinished x (List.mem_of_getElem? hu)) (updateStep_progress hu hstep).1
  · exact ⟨h.allFinished, h.not_notified, h.looks_seen, hp⟩
  · have hsame : ¬ toInt s.seen ≠ toInt changes := by
      rw [h.answer_last status changes hpoll]
      exact not_not.mpr h.looks_seen
    rw [handlePollResult, if_neg hsame]
    exact ⟨h.allFinished, h.not_notified, h.looks_seen, by simp⟩

lemma updates_length_step (hstep : pollStep exec s a = some s') :
    (s'.updates.length = s.updates.length + 1 ∧ Owed exec s') ∨
      s'.updates.length = s.updates.length := by
  rcases pollStep_cases hstep with ⟨-, e, rfl⟩ | ⟨-, u, x, hu, hstep⟩ | ⟨-, p, rfl, -⟩ |
    ⟨status, changes, -, -, rfl⟩
  · refine Or.inl ⟨by simp, fun _ => Or.inl ?_⟩
    exact @not_allFinished _ ⟨e, .registered⟩ (by simp) (by simp)
  · exact Or.inr (updateStep_progress hu hstep).2.1
  · exact Or.inr rfl
  · refine Or.inr ?_
    rw [handlePollResult]
    split_ifs <;> rfl

end Invariant

/-! ## Runs -/

section Runs

variable {exec : Text} {s s' : PollState} {acts : List PollAction}

/-- The steps of a run since the last of `n` requests arrived were heeded. -/
def HeededSince (exec : Text) (n : ℕ) (acts : List PollAction) : Prop :=
  StepsMeet (pollStep exec) .start (fun _ s a => s.updates.length = n → Heeded exec s a) acts

instance (exec : Text) (n : ℕ) (acts : List PollAction) : Decidable (HeededSince exec n acts) :=
  inferInstanceAs (Decidable (StepsMeet _ _ _ _))

lemma pollInv_run (hrun : run (pollStep exec) .start acts = some s) : PollInv s :=
  @run_induction _ _ (pollStep exec) .start (fun _ => PollInv) pollInv_start
    (fun _ h hstep => h.step hstep) acts s hrun

/-- Since the last request arrived, all steps were heeded and the page is owed what it needs, or
one was not and the last change is lost. -/
lemma owed_or_lost (hrun : run (pollStep exec) .start acts = some s) :
    (HeededSince exec s.updates.length acts ∧ Owed exec s) ∨
      (¬ HeededSince exec s.updates.length acts ∧ Lost exec s) := by
  generalize hlast : s.updates.length = n
  -- before the last request arrives there is no condition
  refine (@run_induction _ _ (pollStep exec) .start
    (fun acts s => PollInv s ∧ (s.updates.length < n → HeededSince exec n acts) ∧
      (s.updates.length = n → (HeededSince exec n acts ∧ Owed exec s) ∨
        (¬ HeededSince exec n acts ∧ Lost exec s)))
    ⟨pollInv_start, fun _ => StepsMeet.nil, fun _ => Or.inl ⟨StepsMeet.nil, ?_⟩⟩ ?_ acts s
    hrun).2.2 hlast
  · exact fun hnot => absurd trivial hnot
  rintro acts s a s' hrun ⟨hinv, hbefore, hsince⟩ hstep
  have hsnoc : HeededSince exec n (acts ++ [a]) ↔
      HeededSince exec n acts ∧ (s.updates.length = n → Heeded exec s a) := stepsMeet_append hrun
  rw [hsnoc]
  have hearly : s.updates.length < n →
      HeededSince exec n acts ∧ (s.updates.length = n → Heeded exec s a) := fun hlt =>
    ⟨hbefore hlt, fun heq => absurd heq (Nat.ne_of_lt hlt)⟩
  refine ⟨hinv.step hstep, ?_⟩
  rcases updates_length_step hstep with ⟨hlength, howed⟩ | hlength
  · exact ⟨fun hlt => hearly (by omega), fun heq => Or.inl ⟨hearly (by omega), howed⟩⟩
  · refine ⟨fun hlt => hearly (by omega), fun heq => ?_⟩
    have heq : s.updates.length = n := by omega
    rcases hsince heq with ⟨hmeet, howed⟩ | ⟨hmeet, hlost⟩
    · by_cases hheed : Heeded exec s a
      · exact Or.inl ⟨⟨hmeet, fun _ => hheed⟩, howed.step hinv hheed hstep⟩
      · exact Or.inr ⟨fun h => hheed (h.2 heq), lost_of_not_heeded hinv hstep hheed⟩
    · exact Or.inr ⟨fun h => hmeet h.1, hlost.step hstep hlength⟩

/-- With every request finished, the status of an executable with a trace is GOOD. -/
lemma PollInv.sampleStatus (h : PollInv s) (hdone : s.AllFinished)
    (hreplaced : .replaced exec ∈ s.log) : sampleStatus s exec = .GOOD := by
  have hfree : s.locked exec = false := by
    by_contra hlocked
    obtain ⟨u, x, hu, -, hphase⟩ := h.lock_held exec (by simpa using hlocked)
    rw [hdone x (List.mem_of_getElem? hu)] at hphase
    rcases hphase with hphase | hphase <;> cases hphase
  simp [PerVERT.sampleStatus, h.replaced_known exec hreplaced, hfree]

lemma log_poll (hpoll : run (pollStep exec) s [.sample, .readChangeID, .handle] = some s') :
    s'.log = (handlePollResult s (sampleStatus s exec) s.changes).log := by
  by_cases hidle : s.poll = .idle
  · simp only [run, pollStep, hidle, List.foldlM_cons, List.foldlM_nil, if_true] at hpoll
    cases Option.some.inj hpoll
    simp only [handlePollResult]
    split_ifs <;> rfl
  · simp [run, pollStep, hidle] at hpoll

/-- **When no change is lost.**  All update requests have finished, and one more poll succeeds.
Then the page has been notified of the last replacement just if every answer since the last request
arrived was heeded, and the counter has not come round to an earlier change that the page takes for
it. -/
theorem poll_notifies_iff (hrun : run (pollStep exec) .start acts = some s) (hdone : s.AllFinished)
    (hpoll : run (pollStep exec) s [.sample, .readChangeID, .handle] = some s') :
    Notified exec s'.log ↔ HeededSince exec s.updates.length acts ∧
      (Notified exec s.log ∨ (toInt s.seen = toInt s.changes → s.seen = s.changes)) := by
  have hunseen : toInt s.seen = toInt s.changes → (Notified exec s'.log ↔ Notified exec s.log) := by
    intro heq
    rw [log_poll hpoll, handlePollResult, if_neg (not_not.mpr heq)]
  rcases owed_or_lost hrun with ⟨hmeet, howed⟩ | ⟨hmeet, hlost⟩
  · by_cases hnot : Notified exec s.log
    · rw [log_poll hpoll]
      exact iff_of_true hnot.handlePollResult ⟨hmeet, Or.inl hnot⟩
    · have hlt : s.seen < s.changes := (howed hnot).resolve_left fun h => h hdone
      by_cases heq : toInt s.seen = toInt s.changes
      · refine iff_of_false (fun h => hnot ((hunseen heq).mp h)) ?_
        rintro ⟨-, h | h⟩
        · exact hnot h
        · exact absurd (h heq) (Int.ne_of_lt hlt)
      · have hreplaced : .replaced exec ∈ s.log :=
          by_contra fun hnone => hnot (notified_of_notMem hnone)
        rw [log_poll hpoll, (pollInv_run hrun).sampleStatus hdone hreplaced]
        exact iff_of_true (notified_good heq) ⟨hmeet, Or.inr fun h => absurd h heq⟩
  · exact iff_of_false (fun h => hlost.not_notified ((hunseen hlost.looks_seen).mp h))
      fun h => hmeet h.1

end Runs

/-! ## Two runs -/

/-- An update of `E`.  A poll reads the counter before the trace is replaced. -/
def readBeforeReplace : List PollAction :=
  [.arrive "E".toList, .lock 0, .sample, .readChangeID, .replace 0, .unlock 0, .logChange 0,
    .handle]

/-- The same update.  The poll reads the counter when it is over. -/
def readAfterUpdate : List PollAction :=
  [.arrive "E".toList, .lock 0, .sample, .replace 0, .unlock 0, .logChange 0, .readChangeID,
    .handle]

theorem readBeforeReplace_notifies :
    ∃ s s', run (pollStep "E".toList) .start readBeforeReplace = some s ∧
      run (pollStep "E".toList) s [.sample, .readChangeID, .handle] = some s' ∧
      Notified "E".toList s'.log := by
  refine ⟨_, _, rfl, rfl, ?_⟩
  refine (@poll_notifies_iff "E".toList _ _ readBeforeReplace rfl (by decide) rfl).mpr ?_
  exact ⟨by decide, by decide⟩

/-- The BUSY answer uses up the change, and the next poll sees none. -/
theorem readAfterUpdate_lost :
    ∃ s s', run (pollStep "E".toList) .start readAfterUpdate = some s ∧ s.AllFinished ∧
      run (pollStep "E".toList) s [.sample, .readChangeID, .handle] = some s' ∧
      ¬ Notified "E".toList s'.log :=
  ⟨_, _, rfl, by decide, rfl, by decide⟩

end PerVERT
