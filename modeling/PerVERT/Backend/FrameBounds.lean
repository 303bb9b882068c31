import PerVERT.Backend.ContextViews

/-!
# The frame of a request

Five handlers index `events_` or `validRegions_` with the `frame` of the query, which is any `int`.
Each of them compares it with the number of events, as an `unsigned int`; one reads first.

* `FrameHandler` — the five, and what each answers to the numbers of a query.
* `StaysInside` — no read outside an object, with one lemma for each loop of the handlers.
* `BoundsChecked` — that, and the answer 500 for frames that are not of the trace.
* **`frameHandler_boundsChecked_iff`** — when a handler does both.
-/

namespace PerVERT

/-- The handlers that take a frame. -/
inductive FrameHandler
  | f_mem_status
  | f_context_stack
  | f_context_events
  | f_context_deriv
  | f_context_histo
  deriving DecidableEq, Repr

/-- `true` for an answer with data, `false` for the answer 500. -/
def FrameHandler.answers (trace : Trace) (frame window : ℤ) : FrameHandler → Checked Bool
  | .f_mem_status => Option.isSome <$> PerVERT.f_mem_status trace frame window
  | .f_context_stack => Option.isSome <$> PerVERT.f_context_stack trace frame
  | .f_context_events => Option.isSome <$> PerVERT.f_context_events trace frame
  | .f_context_deriv => Option.isSome <$> PerVERT.f_context_deriv trace frame
  | .f_context_histo => Option.isSome <$> PerVERT.f_context_histo trace frame

/-! ## Reads inside the object -/

/-- No index or pointer outside the object it points into. -/
def StaysInside {α : Type} (x : Checked α) : Prop := x ≠ .error .outOfRange

section StaysInside

variable {α β : Type}

lemma staysInside_ok (a : α) : StaysInside (.ok a : Checked α) := by simp [StaysInside]

lemma staysInside_error {f : Fault} (h : f ≠ .outOfRange) :
    StaysInside (.error f : Checked α) := by
  simp [StaysInside, h]

lemma StaysInside.bind {x : Checked α} {f : α → Checked β} (hx : StaysInside x)
    (hf : ∀ a, x = .ok a → StaysInside (f a)) : StaysInside (x >>= f) := by
  intro h
  rcases checked_bind_eq_error.mp h with h | ⟨a, ha, h⟩
  · exact hx h
  · exact hf a ha h

lemma staysInside_map {x : Checked α} {f : α → β} : StaysInside (f <$> x) ↔ StaysInside x := by
  cases x with
  | error e => simp [StaysInside, Functor.map, Except.map]
  | ok a => simp [StaysInside, Functor.map, Except.map]

lemma staysInside_intAdd (a b : ℤ) : StaysInside (intAdd a b) := by
  rw [intAdd]
  split_ifs
  · exact staysInside_ok _
  · exact staysInside_error (by decide)

lemma staysInside_intAbs (a : ℤ) : StaysInside (intAbs a) := by
  rw [intAbs]
  split_ifs
  · exact staysInside_ok _
  · exact staysInside_error (by decide)

lemma staysInside_typeLetter (type : EventType) : StaysInside (typeLetter type) := by
  cases type with
  | END => exact staysInside_error (by simp)
  | MALLOC | FREE | READ | WRITE => exact staysInside_ok _

lemma staysInside_sampleLoop (delta : ℤ) : ∀ (es : List Event) (count : ℤ),
    StaysInside (sampleLoop delta es count)
  | [], _ => staysInside_ok _
  | e :: es, count => by
      rw [sampleLoop]
      refine (staysInside_intAdd _ _).bind fun count' _ => ?_
      split_ifs
      · exact staysInside_error (by decide)
      · refine (staysInside_sampleLoop delta es count').bind fun events _ => staysInside_ok _
      · refine (staysInside_sampleLoop delta es count').bind fun events _ => staysInside_ok _

lemma staysInside_derivLoop : ∀ (es : List Event) (lastLine : ℤ),
    StaysInside (derivLoop es lastLine)
  | [], _ => staysInside_ok _
  | e :: es, lastLine => by
      rw [derivLoop]
      refine (staysInside_intAdd _ _).bind fun difference _ => ?_
      refine (staysInside_intAbs _).bind fun delta _ => ?_
      exact (staysInside_derivLoop es _).bind fun events _ => staysInside_ok _

/-- The bin is one of the ten. -/
lemma staysInside_countDelta {histogram : List ℤ} (h : histogram.length = 10) (delta : ℤ) :
    StaysInside (countDelta delta histogram) ∧
      ∀ histogram', countDelta delta histogram = .ok histogram' → histogram'.length = 10 := by
  rw [countDelta]
  cases hbin : findBin delta 10 0 with
  | none =>
      exact ⟨staysInside_ok _, fun _ heq => Except.ok.inj heq ▸ h⟩
  | some i =>
      have hi : i < histogram.length := by
        have := (findBin_lt hbin).2
        omega
      show StaysInside (vectorAt histogram i >>= fun count => intAdd count 1 >>= fun count =>
        pure (histogram.set i count)) ∧ ∀ histogram', (vectorAt histogram i >>= fun count =>
          intAdd count 1 >>= fun count => pure (histogram.set i count)) = .ok histogram' → _
      rw [vectorAt_of_getElem? (List.getElem?_eq_getElem hi), checked_ok_bind]
      refine ⟨(staysInside_intAdd _ _).bind fun _ _ => staysInside_ok _, fun _ heq => ?_⟩
      obtain ⟨count, -, heq⟩ := checked_bind_eq_ok.mp heq
      cases heq
      rw [List.length_set, h]

lemma staysInside_histoLoop : ∀ (es : List Event) (lastAddr : ℤ) {histogram : List ℤ},
    histogram.length = 10 → StaysInside (histoLoop es lastAddr histogram)
  | [], _, _, _ => staysInside_ok _
  | e :: es, lastAddr, histogram, h => by
      rw [histoLoop]
      split_ifs
      · exact staysInside_histoLoop es _ h
      · refine (staysInside_intAdd _ _).bind fun difference _ => ?_
        refine (staysInside_intAbs _).bind fun delta _ => ?_
        obtain ⟨hinside, hlength⟩ := staysInside_countDelta h delta
        exact hinside.bind fun histogram' h' => staysInside_histoLoop es _ (hlength _ h')

end StaysInside

/-! ## The check -/

/-- A handler reads `events_` and `validRegions_` in range only, and rejects every frame that is
not one of the trace. -/
structure BoundsChecked (trace : Trace) (frame window : ℤ) (h : FrameHandler) : Prop where
  inside : StaysInside (h.answers trace frame window)
  rejects : ¬ InRange trace frame → h.answers trace frame window = .ok false

section Check

variable {t : Trace} {frame window : ℤ}

lemma vectorAt_of_neg {α : Type} (v : List α) (h : frame < 0) :
    vectorAt v frame = .error .outOfRange := by
  rw [vectorAt, if_neg (by omega)]

/-- For a frame of the trace the check passes, and its event is there. -/
lemma InRange.checked (h : InRange t frame) (hint : InInt frame) :
    ¬ t.events.length ≤ toUnsigned frame ∧ ∃ f e, frame = (f : ℕ) ∧ f < t.events.length ∧
      t.events[f]? = some e ∧ e ∈ t.events ∧ vectorAt t.events frame = .ok e := by
  obtain ⟨f, rfl⟩ := Int.eq_ofNat_of_zero_le h.1
  have hf : f < t.events.length := by
    have := h.2
    omega
  have hget : t.events[f]? = some t.events[f] := List.getElem?_eq_getElem hf
  refine ⟨?_, f, t.events[f], rfl, hf, hget, List.getElem_mem hf, vectorAt_of_getElem? hget⟩
  have := hint.2
  rw [toUnsigned]
  omega

/-- For a frame of a loaded trace nothing is read out of range. -/
lemma staysInside_of_inRange (hloaded : Loaded t) (h : InRange t frame) (hint : InInt frame)
    (window : ℤ) (handler : FrameHandler) : StaysInside (handler.answers t frame window) := by
  obtain ⟨hcheck, f, e, hframe, hf, -, he, hget⟩ := h.checked hint
  cases handler with
  | f_mem_status =>
      obtain ⟨snapshot, hsnapshot⟩ := hloaded.snapshot hf
      rw [FrameHandler.answers, staysInside_map, hframe, f_mem_status_eq hf hsnapshot window]
      exact staysInside_ok _
  | f_context_stack =>
      obtain ⟨stack, hstack⟩ := stackFramesOf_returns hloaded he
      rw [FrameHandler.answers, staysInside_map, f_context_stack, hget, checked_ok_bind,
        if_neg hcheck, hstack]
      exact staysInside_ok _
  | f_context_events =>
      rw [FrameHandler.answers, staysInside_map, f_context_events, if_neg hcheck, hget,
        checked_ok_bind]
      refine (staysInside_typeLetter _).bind fun type _ => ?_
      split_ifs
      · exact (staysInside_sampleLoop _ _ _).bind fun events _ => staysInside_ok _
      · exact staysInside_ok _
  | f_context_deriv =>
      rw [FrameHandler.answers, staysInside_map, f_context_deriv, if_neg hcheck, hget,
        checked_ok_bind]
      split_ifs
      · exact (staysInside_derivLoop _ _).bind fun events _ => staysInside_ok _
      · exact staysInside_ok _
  | f_context_histo =>
      rw [FrameHandler.answers, staysInside_map, f_context_histo, if_neg hcheck, hget,
        checked_ok_bind]
      split_ifs
      · exact (staysInside_histoLoop _ _ rfl).bind fun histogram _ => staysInside_ok _
      · exact staysInside_ok _

/-- The stack handler reads the event of any frame. -/
lemma f_context_stack_outOfRange (h : ¬ InRange t frame) :
    f_context_stack t frame = .error .outOfRange := by
  have hread : vectorAt t.events frame = .error .outOfRange := by
    rw [vectorAt]
    split_ifs with h0
    · rw [List.getElem?_eq_none (by rw [InRange] at h; omega)]
    · rfl
  rw [f_context_stack, hread]
  rfl

/-- The other four reject what the check rejects. -/
lemma answers_of_rejected {handler : FrameHandler} (hne : handler ≠ .f_context_stack)
    (hcheck : t.events.length ≤ toUnsigned frame) :
    handler.answers t frame window = .ok false := by
  cases handler with
  | f_context_stack => exact absurd rfl hne
  | f_mem_status => rw [FrameHandler.answers, f_mem_status, if_pos hcheck]; rfl
  | f_context_events => rw [FrameHandler.answers, f_context_events, if_pos hcheck]; rfl
  | f_context_deriv => rw [FrameHandler.answers, f_context_deriv, if_pos hcheck]; rfl
  | f_context_histo => rw [FrameHandler.answers, f_context_histo, if_pos hcheck]; rfl

/-- A negative frame that passes it, since `(unsigned int) frame` is below the number of events. -/
lemma answers_of_negative {handler : FrameHandler} (hne : handler ≠ .f_context_stack)
    (hcheck : ¬ t.events.length ≤ toUnsigned frame) (hneg : frame < 0) :
    handler.answers t frame window = .error .outOfRange := by
  cases handler with
  | f_context_stack => exact absurd rfl hne
  | f_mem_status =>
      rw [FrameHandler.answers, f_mem_status, if_neg hcheck, vectorAt_of_neg _ hneg]
      rfl
  | f_context_events =>
      rw [FrameHandler.answers, f_context_events, if_neg hcheck, vectorAt_of_neg _ hneg]
      rfl
  | f_context_deriv =>
      rw [FrameHandler.answers, f_context_deriv, if_neg hcheck, vectorAt_of_neg _ hneg]
      rfl
  | f_context_histo =>
      rw [FrameHandler.answers, f_context_histo, if_neg hcheck, vectorAt_of_neg _ hneg]
      rfl

/-- **When a handler checks its bounds.**  The frame is one of the trace; or the check rejects it,
and the handler makes it before it reads.  The comparison is one of unsigned numbers, so it rejects
a negative frame as well, as long as the trace has not `2 ^ 31` events; the handler of the stack has
read the event before it compares. -/
theorem frameHandler_boundsChecked_iff (hloaded : Loaded t) (hint : InInt frame) (window : ℤ)
    (handler : FrameHandler) : BoundsChecked t frame window handler ↔
      InRange t frame ∨ (handler ≠ .f_context_stack ∧ t.events.length ≤ toUnsigned frame) := by
  by_cases hrange : InRange t frame
  · refine iff_of_true ?_ (Or.inl hrange)
    exact ⟨staysInside_of_inRange hloaded hrange hint window handler, fun h => absurd hrange h⟩
  · rw [or_iff_right hrange]
    by_cases hstack : handler = .f_context_stack
    · subst hstack
      refine iff_of_false (fun h => h.inside ?_) (fun h => h.1 rfl)
      rw [FrameHandler.answers, f_context_stack_outOfRange hrange]
      rfl
    · rw [and_iff_right hstack]
      by_cases hcheck : t.events.length ≤ toUnsigned frame
      · have hrejected := @answers_of_rejected t frame window handler hstack hcheck
        refine iff_of_true ⟨?_, fun _ => hrejected⟩ hcheck
        rw [hrejected]
        exact staysInside_ok _
      · have hneg : frame < 0 := by
          rw [InRange] at hrange
          rw [toUnsigned] at hcheck
          have := hint.2
          omega
        refine iff_of_false (fun h => h.inside ?_) hcheck
        exact answers_of_negative hstack hcheck hneg

end Check

/-- A frame behind the last event of a trace with three, asked of the memory view. -/
theorem frameBehindLast_checked : ∃ t, Loaded t ∧ BoundsChecked t 5 7 .f_mem_status := by
  obtain ⟨t, ht, hlength⟩ := @exists_loaded 10 ⟨'?', 0⟩ ⟨[], 0, 0⟩ (some goodLines)
    (some goodTrace) (fun t => t.events.length = 3) (by decide +kernel)
  refine ⟨t, ht, (frameHandler_boundsChecked_iff ht (by decide) 7 .f_mem_status).mpr ?_⟩
  refine Or.inr ⟨by decide, ?_⟩
  rw [of_decide_eq_true hlength]
  decide

/-- The stack handler reads behind the last event. -/
theorem frameBehindLast_stack : ∃ t, Loaded t ∧ t.events.length = 3 ∧
    f_context_stack t 5 = .error .outOfRange ∧ ¬ BoundsChecked t 5 7 .f_context_stack := by
  obtain ⟨t, ht, hlength⟩ := @exists_loaded 10 ⟨'?', 0⟩ ⟨[], 0, 0⟩ (some goodLines)
    (some goodTrace) (fun t => t.events.length = 3) (by decide +kernel)
  have hthree : t.events.length = 3 := of_decide_eq_true hlength
  have hread : f_context_stack t 5 = .error .outOfRange :=
    f_context_stack_outOfRange (by rw [InRange]; omega)
  refine ⟨t, ht, hthree, hread, fun h => h.inside ?_⟩
  rw [FrameHandler.answers, hread]
  rfl

end PerVERT
