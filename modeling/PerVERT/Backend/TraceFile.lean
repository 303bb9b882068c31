import PerVERT.Backend.Contexts
import PerVERT.Pintool.Recorder

/-!
# What `Trace::parseTraceFile` makes of a text

The rules about the loop over the records, for every text.

* `TraceFile t es` — the text is complete records, each on its line, and the closing `E`; `es` is
  what they say and the stack texts on their lines.
* `parseTraceLoop_entry` — one round reads one record; **`parseTraceLoop_file`** — the loop reads
  them all, once their stack texts can be resolved; `resolvable_of_parseTraceLoop` — only then.
* **`parseTraceLoop_failed`** — the loop on a stream that has failed.
* **`parseTraceFile_complete_iff`** — when the parser ends, and returns true for a complete text
  only.
-/

namespace PerVERT

/-! ## Complete texts -/

/-- A record of a trace file, with the rest of its line. -/
structure Entry where
  body : RecordBody
  context : Text
  deriving DecidableEq, Repr

/-- The arguments behind a letter, and what is left. -/
def readBody (c : Char) (t : Text) : Option (RecordBody × Text) :=
  match c with
  | 'M' => do
      let addr ← hexNumber t
      let endAddr ← hexNumber (afterHex t)
      some (.M addr endAddr, afterHex (afterHex t))
  | 'F' => (hexNumber t).map fun addr => (.F addr, afterHex t)
  | 'R' => (hexNumber t).map fun addr => (.R addr, afterHex t)
  | 'W' => (hexNumber t).map fun addr => (.W addr, afterHex t)
  | _ => none

/-- A complete record is at the head of `t`, and `tail` begins on the next line. -/
def ReadsEntry (t : Text) (x : Entry) (tail : Text) : Prop :=
  ∃ c rest, t.dropWhile isSpace = c :: rest ∧
    readBody c rest = some (x.body, x.context ++ '\n' :: tail) ∧ '\n' ∉ x.context

/-- The text is complete records, and the closing one with nothing behind it. -/
inductive TraceFile : Text → List Entry → Prop
  | close {t rest : Text} (h : t.dropWhile isSpace = 'E' :: rest)
      (hend : rest.dropWhile isSpace = []) : TraceFile t []
  | record {t tail : Text} {x : Entry} {es : List Entry} (h : ReadsEntry t x tail)
      (hes : TraceFile tail es) : TraceFile t (x :: es)

/-- The event at position `k` says what a record says. -/
structure Entry.Tells (k : ℕ) (x : Entry) (e : Event) : Prop where
  body : x.body.Matches e
  index : e.index = UInt32.ofNat k
  context : e.context = x.context

/-! ## One round -/

section Round

variable {junk : Junk}

/-- The arguments of a complete record, whatever the variable held before. -/
lemma parseArguments_body {c : Char} {t after : Text} {body : RecordBody}
    (h : readBody c t = some (body, after)) (hne : after ≠ []) (event : Event) :
    ∃ e, parseArguments c (Istream.ofText t) event = .ok (e, Istream.ofText after) ∧
      body.Matches e ∧ e.index = event.index ∧ e.type ≠ .END := by
  unfold readBody at h
  split at h
  · simp only [Option.bind_eq_bind, Option.bind_eq_some_iff, Option.some.injEq,
      Prod.mk.injEq] at h
    obtain ⟨addr, haddr, endAddr, hend, rfl, rfl⟩ := h
    have hmore : afterHex t ≠ [] := by
      intro hnil
      rw [hnil, hexNumber_nil] at hend
      cases hend
    refine ⟨{ event with type := .MALLOC, arg1 := addr, arg2 := endAddr }, ?_, ⟨rfl, rfl, rfl⟩,
      rfl, by simp⟩
    simp only [parseArguments, getHex_continues haddr hmore, getHex_continues hend hne]
    rfl
  · simp only [Option.map_eq_some_iff, Prod.mk.injEq] at h
    obtain ⟨addr, haddr, rfl, rfl⟩ := h
    refine ⟨{ event with type := .FREE, arg1 := addr }, ?_, ⟨rfl, rfl⟩, rfl, by simp⟩
    simp only [parseArguments, getHex_continues haddr hne]
    rfl
  · simp only [Option.map_eq_some_iff, Prod.mk.injEq] at h
    obtain ⟨addr, haddr, rfl, rfl⟩ := h
    refine ⟨{ event with type := .READ, arg1 := addr }, ?_, ⟨rfl, rfl⟩, rfl, by simp⟩
    simp only [parseArguments, getHex_continues haddr hne]
    rfl
  · simp only [Option.map_eq_some_iff, Prod.mk.injEq] at h
    obtain ⟨addr, haddr, rfl, rfl⟩ := h
    refine ⟨{ event with type := .WRITE, arg1 := addr }, ?_, ⟨rfl, rfl⟩, rfl, by simp⟩
    simp only [parseArguments, getHex_continues haddr hne]
    rfl
  · cases h

lemma matches_withContext {body : RecordBody} {e : Event} (h : body.Matches e) (context : Text) :
    body.Matches { e with context } := by
  cases body <;> exact h

/-- **One round.**  A complete record is read into the event that tells it; what the round does
besides is to look up the stack text. -/
theorem parseTraceLoop_entry {t tail : Text} {x : Entry} (h : ReadsEntry t x tail) (event : Event)
    (p : Parsed) :
    ∃ e, x.Tells p.events.length e ∧ ∀ fuel n,
      parseTraceLoop fuel junk (n + 1) (Istream.ofText t) event p
        = (parseContext fuel junk p x.context >>= fun p =>
            parseTraceLoop fuel junk n (Istream.ofText tail) e
              { p with events := p.events ++ [e] }) := by
  obtain ⟨c, rest, hhead, hbody, hline⟩ := h
  obtain ⟨e, hargs, hmatches, hindex, hend⟩ := parseArguments_body hbody (by simp)
    { event with index := UInt32.ofNat p.events.length }
  refine ⟨{ e with context := x.context }, ⟨matches_withContext hmatches _, hindex, rfl⟩,
    fun fuel n => ?_⟩
  rw [parseTraceLoop, getChar_some hhead]
  simp only [hargs]
  show (if e.type = .END then pure p else _) = _
  rw [if_neg hend]
  simp only [getline_spec hline]

lemma parseTraceLoop_close {t rest : Text} (h : t.dropWhile isSpace = 'E' :: rest) (event : Event)
    (p : Parsed) (fuel n : ℕ) :
    parseTraceLoop fuel junk (n + 1) (Istream.ofText t) event p = .ok p := by
  rw [parseTraceLoop, getChar_some h]
  rfl

/-! ## All rounds -/

/-- **All rounds.**  Once the stack texts are resolved, a complete text is read to its `E`, and the
events are what it says. -/
theorem parseTraceLoop_file {fuel : ℕ} {t : Text} {es : List Entry} (h : TraceFile t es) :
    ∀ {n : ℕ} {p : Parsed} (event : Event),
      (∀ x ∈ es, ∃ context, resolveContext fuel junk p.locations x.context = .ok context) →
      es.length < n →
      ∃ p' events, parseTraceLoop fuel junk n (Istream.ofText t) event p = .ok p' ∧
        p'.events = p.events ++ events ∧ p'.locations = p.locations ∧ p'.okay = p.okay ∧
        List.Forall₂ (fun xk e => xk.1.Tells xk.2 e) (es.zipIdx p.events.length) events ∧
        ∀ c, (∃ x ∈ es, c = x.context) ∨ (p.contexts c).isSome = true →
          (p'.contexts c).isSome = true := by
  induction h with
  | @close t rest h _ =>
      intro n p event _ hn
      cases n with
      | zero => cases hn
      | succ n =>
          refine ⟨p, [], parseTraceLoop_close h event p fuel n, by simp, rfl, rfl,
            List.Forall₂.nil, ?_⟩
          rintro c (⟨x, hx, -⟩ | hc)
          · cases hx
          · exact hc
  | @record t tail x es h _ ih =>
      intro n p event hresolve hn
      cases n with
      | zero => cases hn
      | succ n =>
          obtain ⟨context, hcontext⟩ := hresolve x List.mem_cons_self
          obtain ⟨e, htells, hround⟩ := @parseTraceLoop_entry junk t tail x h event p
          obtain ⟨p₁, hp₁⟩ := exists_parseContext hcontext
          have hlooks := parseContext_looksUp hp₁
          obtain ⟨p', events, hloop, hevents, hlocs, hokay, htold, hknown⟩ :=
            @ih n { p₁ with events := p₁.events ++ [e] } e
              (fun y hy => by
                show ∃ context, resolveContext fuel junk p₁.locations y.context = .ok context
                rw [hlooks.locations]
                exact hresolve y (List.mem_cons_of_mem _ hy))
              (Nat.lt_of_succ_lt_succ hn)
          have hlength : (p₁.events ++ [e]).length = p.events.length + 1 := by
            rw [hlooks.events, List.length_append, List.length_singleton]
          rw [hlength] at htold
          refine ⟨p', e :: events, ?_, ?_, hlocs.trans hlooks.locations, hokay.trans hlooks.okay,
            List.Forall₂.cons htells htold, ?_⟩
          · rw [hround, hp₁]
            exact hloop
          · rw [hevents]
            simp [hlooks.events]
          · rintro c (⟨y, hy, rfl⟩ | hc)
            · rcases List.mem_cons.mp hy with rfl | hy
              · exact hknown _ (Or.inr hlooks.known)
              · exact hknown _ (Or.inl ⟨y, hy, rfl⟩)
            · exact hknown c (Or.inr ((hlooks.isSome_iff c).mpr (Or.inr hc)))

/-- A stack text that was looked up is resolvable, if those known before are. -/
lemma resolvable_of_parseContext {fuel : ℕ} {rows : List Location} {p p' : Parsed} {s : Text}
    (hlocs : p.locations = lineTable rows)
    (hknown : ∀ c, (p.contexts c).isSome = true → Resolvable rows c)
    (h : parseContext fuel junk p s = .ok p') :
    p'.locations = lineTable rows ∧ Resolvable rows s ∧
      ∀ c, (p'.contexts c).isSome = true → Resolvable rows c := by
  have hlooks := parseContext_looksUp h
  have hs : Resolvable rows s := by
    obtain ⟨context, hcontext⟩ := Option.isSome_iff_exists.mp hlooks.known
    rcases hlooks.resolved s context hcontext with hold | ⟨-, hresolve⟩
    · exact hknown s (by simp [hold])
    · rw [hlocs] at hresolve
      exact resolveContext_returns_iff.mp ⟨fuel, context, hresolve⟩
  refine ⟨hlooks.locations.trans hlocs, hs, fun c hc => ?_⟩
  rcases (hlooks.isSome_iff c).mp hc with rfl | hc
  · exact hs
  · exact hknown c hc

/-- When the loop returns from a complete text, it has resolved all stack texts. -/
lemma resolvable_of_parseTraceLoop {fuel : ℕ} {rows : List Location} {t : Text} {es : List Entry}
    (h : TraceFile t es) : ∀ {n : ℕ} {p p' : Parsed} {event : Event},
      p.locations = lineTable rows →
      (∀ c, (p.contexts c).isSome = true → Resolvable rows c) →
      parseTraceLoop fuel junk n (Istream.ofText t) event p = .ok p' →
      ∀ x ∈ es, Resolvable rows x.context := by
  induction h with
  | close _ _ =>
      intro n p p' event _ _ _ x hx
      cases hx
  | @record t tail x es h _ ih =>
      intro n p p' event hlocs hknown hloop y hy
      cases n with
      | zero => cases hloop
      | succ n =>
          obtain ⟨e, -, hround⟩ := @parseTraceLoop_entry junk t tail x h event p
          rw [hround] at hloop
          obtain ⟨p₁, hp₁, hloop⟩ := checked_bind_eq_ok.mp hloop
          obtain ⟨hlocs₁, hx, hknown₁⟩ := resolvable_of_parseContext hlocs hknown hp₁
          rcases List.mem_cons.mp hy with rfl | hy
          · exact hx
          · exact @ih n { p₁ with events := p₁.events ++ [e] } p' e hlocs₁ hknown₁ hloop y hy

/-! ## A stream that has failed -/

/-- The letters of the records. -/
def recordLetters : List Char := ['M', 'F', 'R', 'W']

/-- No record reads anything from a failed stream, and each goes on with it. -/
lemma parseArguments_failed {c : Char} {s : Istream} (hs : s.fail = true)
    (hc : c ∈ recordLetters) (event : Event) :
    ∃ e, parseArguments c s event = .ok (e, s) ∧ e.type ≠ .END := by
  simp only [recordLetters, List.mem_cons, List.not_mem_nil, or_false] at hc
  rcases hc with rfl | rfl | rfl | rfl
  · exact ⟨{ event with type := .MALLOC }, by simp [parseArguments, getHex_failed hs]; rfl, by simp⟩
  · exact ⟨{ event with type := .FREE }, by simp [parseArguments, getHex_failed hs]; rfl, by simp⟩
  · exact ⟨{ event with type := .READ }, by simp [parseArguments, getHex_failed hs]; rfl, by simp⟩
  · exact ⟨{ event with type := .WRITE }, by simp [parseArguments, getHex_failed hs]; rfl, by simp⟩

lemma parseContext_nil (fuel : ℕ) (p : Parsed) :
    (∃ p', parseContext fuel junk p [] = .ok p') ∨
      parseContext fuel junk p [] = .error .outOfFuel := by
  rw [parseContext]
  split_ifs
  · exact Or.inl ⟨p, rfl⟩
  · cases fuel with
    | zero => exact Or.inr rfl
    | succ n => exact Or.inl ⟨_, rfl⟩

/-- **The loop on a stream that has failed.**  It goes by the letter that the variable happens to
hold: with `E` it returns, with that of a record it never ends, and with any other it aborts. -/
theorem parseTraceLoop_failed {s s' : Istream} (hget : s.getChar junk.char = (junk.char, s'))
    (hfail : s'.fail = true) (fuel n : ℕ) (event : Event) (p : Parsed) :
    (junk.char = 'E' → parseTraceLoop fuel junk (n + 1) s event p = .ok p) ∧
    (junk.char ∈ recordLetters → parseTraceLoop fuel junk n s event p = .error .outOfFuel) ∧
    (junk.char ≠ 'E' → junk.char ∉ recordLetters → parseTraceLoop fuel junk (n + 1) s event p
      = .error (.assertion "Control should never reach here!")) := by
  refine ⟨fun hE => ?_, fun hletter => ?_, fun hE hletter => ?_⟩
  · rw [parseTraceLoop, hget, hE]
    rfl
  · induction n generalizing s event p with
    | zero => rfl
    | succ n ih =>
        obtain ⟨e, hargs, hend⟩ := parseArguments_failed hfail hletter
          { event with index := UInt32.ofNat p.events.length }
        rw [parseTraceLoop, hget]
        simp only [hargs]
        show (if e.type = .END then pure p else _) = _
        rw [if_neg hend]
        simp only [getline_failed hfail]
        rcases @parseContext_nil junk fuel p with ⟨p', hp'⟩ | hfuel
        · rw [hp']
          exact ih (getChar_failed hfail junk.char) _ _
        · rw [hfuel]
          rfl
  · rw [parseTraceLoop, hget]
    have hargs : ∀ e, parseArguments junk.char s' e
        = .error (.assertion "Control should never reach here!") := by
      intro e
      unfold parseArguments
      split <;> simp_all [recordLetters]
    simp only [hargs]
    rfl

end Round

/-! ## The whole file -/

/-- What the line parser leaves. -/
def afterLines (rows : List Location) : Parsed := { Parsed.empty with locations := lineTable rows }

/-- The parser returns, and true for a complete text only. -/
def EndsProperly (junk : Junk) (rows : List Location) (text : Text) : Prop :=
  ∃ n b p', (∀ fuel, n ≤ fuel →
      parseTraceFile fuel junk (some text) (afterLines rows) = .ok (b, p')) ∧
    (b = true → ∃ es, TraceFile text es)

/-- One number of rounds is enough for all the stack texts. -/
lemma exists_rounds {α : Type} {junk : Junk} {locations : List Location} {f : α → Text} :
    ∀ {xs : List α}, (∀ x ∈ xs, ∃ n context,
        resolveContext n junk locations (f x) = .ok context) →
      ∃ n, ∀ x ∈ xs, ∃ context, resolveContext n junk locations (f x) = .ok context
  | [], _ => ⟨0, by simp⟩
  | x :: xs, h => by
      obtain ⟨n₁, context, h₁⟩ := h x List.mem_cons_self
      obtain ⟨n₂, h₂⟩ := @exists_rounds _ _ _ _ xs fun y hy => h y (List.mem_cons_of_mem _ hy)
      refine ⟨max n₁ n₂, fun y hy => ?_⟩
      rcases List.mem_cons.mp hy with rfl | hy
      · exact ⟨context, resolveContext_mono (le_max_left _ _) h₁⟩
      · obtain ⟨context', h'⟩ := h₂ y hy
        exact ⟨context', resolveContext_mono (le_max_right _ _) h'⟩

/-- **A complete file** whose stack texts are resolved is read, and the events say what it says. -/
theorem parseTraceFile_file {junk : Junk} {text : Text} {es : List Entry} (h : TraceFile text es)
    {p : Parsed} (hp : p.events = [])
    (hresolve : ∀ x ∈ es, ∃ n context,
      resolveContext n junk p.locations x.context = .ok context) :
    ∃ n p', (∀ fuel, n ≤ fuel → parseTraceFile fuel junk (some text) p = .ok (true, p')) ∧
      List.Forall₂ (fun xk e => xk.1.Tells xk.2 e) es.zipIdx p'.events ∧
      p'.locations = p.locations ∧ p'.okay = p.okay ∧
      ∀ x ∈ es, (p'.contexts x.context).isSome = true := by
  obtain ⟨n, hn⟩ := exists_rounds hresolve
  have hresolve' : ∀ x ∈ es, ∃ context, resolveContext (max n (es.length + 1)) junk
      p.locations x.context = .ok context := by
    intro x hx
    obtain ⟨context, hcontext⟩ := hn x hx
    exact ⟨context, resolveContext_mono (le_max_left _ _) hcontext⟩
  obtain ⟨p', events, hloop, hevents, hlocs, hokay, htold, hknown⟩ :=
    parseTraceLoop_file h ⟨0, .END, junk.word, junk.word, []⟩ hresolve'
      (lt_of_lt_of_le (Nat.lt_succ_self _) (le_max_right n (es.length + 1)))
  rw [hp, List.nil_append] at hevents
  rw [hp, List.length_nil] at htold
  refine ⟨max n (es.length + 1), p', fun fuel hfuel => ?_, ?_, hlocs, hokay, ?_⟩
  · exact parseTraceFile_mono hfuel (checked_bind_eq_ok.mpr ⟨p', hloop, rfl⟩)
  · rw [hevents]
    exact htold
  · exact fun x hx => hknown _ (Or.inl ⟨x, hx, rfl⟩)

/-- **When the parser of traces ends as it should.**  For every text and every table it returns, and
with success for a complete text only, just if the text is complete records with the closing one,
and each stack text of it can be resolved.  A text that ends too early is read on for ever, since
nothing asks whether the stream is still good. -/
theorem parseTraceFile_complete_iff (junk : Junk) (rows : List Location) (text : Text) :
    EndsProperly junk rows text ↔
      ∃ es, TraceFile text es ∧ ∀ x ∈ es, Resolvable rows x.context := by
  constructor
  · rintro ⟨n, b, p', hread, hcomplete⟩
    obtain ⟨p, hloop, hresult⟩ := checked_bind_eq_ok.mp (hread n (le_refl n))
    cases hresult
    obtain ⟨es, hes⟩ := hcomplete rfl
    refine ⟨es, hes, resolvable_of_parseTraceLoop hes rfl (fun c hc => ?_) hloop⟩
    cases hc
  · rintro ⟨es, hes, hresolve⟩
    obtain ⟨n, p', hread, -⟩ := @parseTraceFile_file junk text es hes (afterLines rows) rfl
      fun x hx => resolveContext_returns_iff.mpr (hresolve x hx)
    exact ⟨n, true, p', hread, fun _ => ⟨es, hes⟩⟩

/-- The traced program was killed: a record, and no `E`.  The letter keeps the value it had, and
the loop goes on forever. -/
theorem killedTrace_not_ends :
    ¬ EndsProperly ⟨'R', 0⟩ twoSequences "R 0x1010 0x400110\n".toList := by
  rintro ⟨n, b, p', hread, -⟩
  obtain ⟨p, hloop, -⟩ := checked_bind_eq_ok.mp (hread (n + 1) (Nat.le_succ n))
  have hentry : ReadsEntry "R 0x1010 0x400110\n".toList ⟨.R 0x1010, " 0x400110".toList⟩ [] :=
    ⟨'R', " 0x1010 0x400110\n".toList, by decide, by decide, by decide⟩
  obtain ⟨e, -, hround⟩ := @parseTraceLoop_entry ⟨'R', 0⟩ _ _ _ hentry
    ⟨0, .END, 0, 0, []⟩ (afterLines twoSequences)
  rw [hround] at hloop
  obtain ⟨p₁, -, hloop⟩ := checked_bind_eq_ok.mp hloop
  have hstuck := (@parseTraceLoop_failed ⟨'R', 0⟩ (Istream.ofText []) ⟨[], true, true⟩ rfl rfl
    (n + 1) n e { p₁ with events := p₁.events ++ [e] }).2.1 (by decide)
  rw [hstuck] at hloop
  cases hloop

end PerVERT
