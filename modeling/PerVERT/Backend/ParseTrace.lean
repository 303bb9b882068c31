import PerVERT.Backend.Trace
import PerVERT.Core.Istream
import Mathlib.Logic.Function.Basic

/-!
# `Trace::parseTraceFile` and `Trace::parseContext`

The trace file is read record by record until its `E`.  The rest of each line is the text of a
call stack; it is resolved to locations once, the first time it occurs.

* `contextLoop`, `trimLoop`, `resolveContext` — the stack text as locations.
* `parseContext`, `parseTraceLoop`, `parseTraceFile` — as the code runs them.
* **`parseContext_looksUp`**, **`parseTraceLoop_round`** — what a lookup leaves, and what a round of
  the loop that returns has done.

Neither loop is bounded by the text: an extraction that fails leaves the stream where it is.  Both
are given a number of rounds, and `Fault.outOfFuel` says that they were not done by then;
**`parseTraceFile_mono`** says that more rounds do not change a result.
-/

namespace PerVERT

/-- What the local variables `c`, `address` and `event` hold before they are written. -/
structure Junk where
  char : Char
  word : UInt64

/-! ## The stack text -/

/-- The search for the row of an address, from row `i` on for `n` rows: the row it stops at, and
whether it holds the address. -/
def findRow (locations : List Location) (address : UInt64) : ℕ → ℕ → Checked (ℕ × Bool)
  | 0, i => pure (i, false)
  | n + 1, i => do
      let row ← vectorAt locations i
      let next ← vectorAt locations (i + 1)
      if row.address ≤ address ∧ address < next.address then pure (i, true)
      else findRow locations address n (i + 1)

/-- The frames an address adds to the context. -/
def resolveAddress (locations : List Location) (address : UInt64) : Checked (List ℕ) := do
  let (i, found) ← findRow locations address (toUnsigned (locations.length - 1) - 1) 1
  if found then pure [i]
  else if i = locations.length - 1 then pure [0]
  else pure []

/-- The extraction loop of `parseContext`. -/
def contextLoop (junk : Junk) (locations : List Location) :
    ℕ → Istream → List ℕ → Checked (List ℕ)
  | 0, _, _ => .error .outOfFuel
  | n + 1, iss, context => do
      let (address, iss) := iss.getHex junk.word
      if iss.eof then pure context
      else
        let frames ← resolveAddress locations address
        contextLoop junk locations n iss (context ++ frames)

/-- Remove leading UNKNOWNS from stack.  The context is given from its back. -/
def trimLoop (locations : List Location) : List ℕ → Checked (List ℕ)
  | [] => .error .emptyContainer
  | frame :: rest => do
      let location ← vectorAt locations frame
      if location.file = "UNKNOWN".toList then trimLoop locations rest
      else pure (frame :: rest)

/-- The context of a stack text. -/
def resolveContext (fuel : ℕ) (junk : Junk) (locations : List Location) (s : Text) :
    Checked (List ℕ) := do
  let context ← contextLoop junk locations fuel (Istream.ofText s) []
  if context.isEmpty then pure context
  else do
    let trimmed ← trimLoop locations context.reverse
    pure trimmed.reverse

/-- `Trace::parseContext`. -/
def parseContext (fuel : ℕ) (junk : Junk) (p : Parsed) (s : Text) : Checked Parsed :=
  if (p.contexts s).isSome then pure p
  else do
    let context ← resolveContext fuel junk p.locations s
    pure { p with contexts := Function.update p.contexts s (some context) }

/-! ## The records -/

/-- The arguments of a record, by its letter.  The variable `event` is the same in every round, so
what a record does not set keeps its value. -/
def parseArguments (c : Char) (ifs : Istream) (event : Event) : Checked (Event × Istream) :=
  match c with
  | 'M' =>
      let (arg1, ifs) := ifs.getHex event.arg1
      let (arg2, ifs) := ifs.getHex event.arg2
      pure ({ event with type := .MALLOC, arg1, arg2 }, ifs)
  | 'F' =>
      let (arg1, ifs) := ifs.getHex event.arg1
      pure ({ event with type := .FREE, arg1 }, ifs)
  | 'R' =>
      let (arg1, ifs) := ifs.getHex event.arg1
      pure ({ event with type := .READ, arg1 }, ifs)
  | 'W' =>
      let (arg1, ifs) := ifs.getHex event.arg1
      pure ({ event with type := .WRITE, arg1 }, ifs)
  | 'E' => pure ({ event with type := .END }, ifs)
  | _ => .error (.assertion "Control should never reach here!")

/-- The loop of `parseTraceFile`. -/
def parseTraceLoop (fuel : ℕ) (junk : Junk) : ℕ → Istream → Event → Parsed → Checked Parsed
  | 0, _, _, _ => .error .outOfFuel
  | n + 1, ifs, event, p => do
      let event := { event with index := UInt32.ofNat p.events.length }
      let (c, ifs) := ifs.getChar junk.char
      let (event, ifs) ← parseArguments c ifs event
      if event.type = .END then pure p
      else
        let (context, ifs) := ifs.getline []
        let p ← parseContext fuel junk p context
        let event := { event with context }
        parseTraceLoop fuel junk n ifs event { p with events := p.events ++ [event] }

/-- `Trace::parseTraceFile`.  No text means that the file cannot be opened. -/
def parseTraceFile (fuel : ℕ) (junk : Junk) (file : Option Text) (p : Parsed) :
    Checked (Bool × Parsed) :=
  match file with
  | none => pure (false, p)
  | some text => do
      let p ← parseTraceLoop fuel junk fuel (Istream.ofText text)
        ⟨0, .END, junk.word, junk.word, []⟩ p
      pure (true, p)

/-! ## Rounds -/

/-- More rounds do not change what the extraction loop returns. -/
lemma contextLoop_mono {junk : Junk} {locations : List Location} {result : List ℕ} :
    ∀ {n m : ℕ} {iss : Istream} {context : List ℕ}, n ≤ m →
      contextLoop junk locations n iss context = .ok result →
      contextLoop junk locations m iss context = .ok result
  | n + 1, m + 1, iss, context, hnm, h => by
      rw [contextLoop] at h ⊢
      cases hget : iss.getHex junk.word with
      | mk address iss' =>
          simp only [hget] at h ⊢
          split_ifs at h ⊢ with heof
          · exact h
          · obtain ⟨frames, hframes, h⟩ := checked_bind_eq_ok.mp h
            rw [hframes]
            exact contextLoop_mono (Nat.le_of_succ_le_succ hnm) h

lemma resolveContext_mono {junk : Junk} {locations : List Location} {s : Text} {n m : ℕ}
    {context : List ℕ} (hnm : n ≤ m) (h : resolveContext n junk locations s = .ok context) :
    resolveContext m junk locations s = .ok context := by
  obtain ⟨frames, hframes, h⟩ := checked_bind_eq_ok.mp h
  exact checked_bind_eq_ok.mpr ⟨frames, contextLoop_mono hnm hframes, h⟩

lemma parseContext_mono {fuel fuel' : ℕ} {junk : Junk} {p p' : Parsed} {s : Text}
    (hle : fuel ≤ fuel') (h : parseContext fuel junk p s = .ok p') :
    parseContext fuel' junk p s = .ok p' := by
  rw [parseContext] at h ⊢
  split_ifs at h ⊢
  · exact h
  · obtain ⟨context, hcontext, h⟩ := checked_bind_eq_ok.mp h
    rw [resolveContext_mono hle hcontext]
    exact h

lemma parseTraceLoop_mono {fuel fuel' : ℕ} {junk : Junk} {p' : Parsed} (hle : fuel ≤ fuel') :
    ∀ {n m : ℕ} {ifs : Istream} {event : Event} {p : Parsed}, n ≤ m →
      parseTraceLoop fuel junk n ifs event p = .ok p' →
      parseTraceLoop fuel' junk m ifs event p = .ok p'
  | n + 1, m + 1, ifs, event, p, hnm, h => by
      rw [parseTraceLoop] at h ⊢
      cases hget : ifs.getChar junk.char with
      | mk c ifs₁ =>
          simp only [hget] at h ⊢
          obtain ⟨⟨e, ifs₂⟩, hargs, h⟩ := checked_bind_eq_ok.mp h
          rw [hargs]
          show (if e.type = .END then pure p else _) = _
          simp only at h
          split_ifs at h ⊢
          · exact h
          · obtain ⟨p₁, hp₁, h⟩ := checked_bind_eq_ok.mp h
            rw [parseContext_mono hle hp₁]
            exact parseTraceLoop_mono hle (Nat.le_of_succ_le_succ hnm) h

lemma parseTraceFile_mono {fuel fuel' : ℕ} {junk : Junk} {file : Option Text} {p : Parsed}
    {result : Bool × Parsed} (hle : fuel ≤ fuel')
    (h : parseTraceFile fuel junk file p = .ok result) :
    parseTraceFile fuel' junk file p = .ok result := by
  cases file with
  | none => exact h
  | some text =>
      obtain ⟨p', hp', h⟩ := checked_bind_eq_ok.mp h
      exact checked_bind_eq_ok.mpr ⟨p', parseTraceLoop_mono hle hle hp', h⟩

/-! ## One stack text -/

section Lookup

variable {fuel : ℕ} {junk : Junk} {p p' : Parsed} {s : Text}

/-- What looking `s` up leaves: it is known, and everything else is as before. -/
structure LooksUp (fuel : ℕ) (junk : Junk) (p : Parsed) (s : Text) (p' : Parsed) : Prop where
  events : p'.events = p.events
  locations : p'.locations = p.locations
  okay : p'.okay = p.okay
  isSome_iff : ∀ c, (p'.contexts c).isSome = true ↔ c = s ∨ (p.contexts c).isSome = true
  resolved : ∀ c context, p'.contexts c = some context →
    p.contexts c = some context ∨ (c = s ∧ resolveContext fuel junk p.locations s = .ok context)

lemma LooksUp.known (h : LooksUp fuel junk p s p') : (p'.contexts s).isSome = true :=
  (h.isSome_iff s).mpr (Or.inl rfl)

/-- **Looking a stack text up.**  Only one that is not known is resolved. -/
lemma parseContext_looksUp (h : parseContext fuel junk p s = .ok p') :
    LooksUp fuel junk p s p' := by
  rw [parseContext] at h
  split_ifs at h with hsome
  · cases h
    refine ⟨rfl, rfl, rfl, fun c => ?_, fun c context hc => Or.inl hc⟩
    exact (or_iff_right_of_imp fun hcs => hcs ▸ hsome).symm
  · obtain ⟨context, hcontext, h⟩ := checked_bind_eq_ok.mp h
    cases h
    refine ⟨rfl, rfl, rfl, fun c => ?_, fun c frames hc => ?_⟩
    · by_cases hcs : c = s
      · simp [hcs]
      · simp [hcs]
    · by_cases hcs : c = s
      · subst hcs
        simp only [Function.update_self, Option.some.injEq] at hc
        exact Or.inr ⟨rfl, hc ▸ hcontext⟩
      · simp only [Function.update_of_ne hcs] at hc
        exact Or.inl hc

/-- A stack text that can be resolved is looked up. -/
lemma exists_parseContext {context : List ℕ}
    (h : resolveContext fuel junk p.locations s = .ok context) :
    ∃ p', parseContext fuel junk p s = .ok p' := by
  rw [parseContext]
  split_ifs
  · exact ⟨p, rfl⟩
  · exact ⟨_, checked_bind_eq_ok.mpr ⟨context, h, rfl⟩⟩

/-- **One round** of a loop that returns: it has read the `E`, or a record and the rest of its line,
and goes on. -/
lemma parseTraceLoop_round {n : ℕ} {ifs : Istream} {event : Event}
    (h : parseTraceLoop fuel junk (n + 1) ifs event p = .ok p') :
    ∃ e ifs', parseArguments (ifs.getChar junk.char).1 (ifs.getChar junk.char).2
        { event with index := UInt32.ofNat p.events.length } = .ok (e, ifs') ∧
      ((e.type = .END ∧ p' = p) ∨ (e.type ≠ .END ∧ ∃ p₁,
        parseContext fuel junk p (ifs'.getline []).1 = .ok p₁ ∧
        parseTraceLoop fuel junk n (ifs'.getline []).2 { e with context := (ifs'.getline []).1 }
          { p₁ with events := p₁.events ++ [{ e with context := (ifs'.getline []).1 }] }
            = .ok p')) := by
  rw [parseTraceLoop] at h
  obtain ⟨⟨e, ifs'⟩, hargs, h⟩ := checked_bind_eq_ok.mp h
  refine ⟨e, ifs', hargs, ?_⟩
  simp only at h
  split_ifs at h with hend
  · cases h
    exact Or.inl ⟨hend, rfl⟩
  · exact Or.inr ⟨hend, checked_bind_eq_ok.mp h⟩

end Lookup

end PerVERT
