import PerVERT.Backend.Loaded

/-!
# `/f/counts` and the four views of a context

What the handlers compute, once the query has given a loaded trace and the `int` frame.  A frame
stands for its event, and an event for all the events of its context.

* `f_counts`, `f_context_stack`, `f_context_events`, `f_context_deriv`, `f_context_histo` — as the
  code runs them; `none` is the answer 500.
* `Fits` — the trace is small enough for the `int`s of these handlers.
* **`f_mem_status_returns`**, **`f_context_stack_returns`**, **`f_context_events_returns`**,
  **`f_context_deriv_returns`**, **`f_context_histo_returns`** — for a loaded trace that fits, every
  frame in range is answered.
-/

namespace PerVERT

/-! ## The handlers -/

/-- The JSON object of `/f/counts`. -/
structure Counts where
  max_addr : ℤ
  event : ℤ
  malloc : ℤ
  free : ℤ
  read : ℤ
  write : ℤ
  deriving DecidableEq, Repr

/-- `PervertLayer::f_counts`. -/
def f_counts (trace : Trace) : Counts where
  max_addr := toInt trace.maxAddress.toNat
  event := toInt trace.events.length
  malloc := toInt (trace.byType .MALLOC).length
  free := toInt (trace.byType .FREE).length
  read := toInt (trace.byType .READ).length
  write := toInt (trace.byType .WRITE).length

/-- The events of a context, in the order of `byContext_`. -/
def contextEvents (trace : Trace) (context : Text) : List Event :=
  pointees trace.events (trace.byContext context)

/-- `file` and `line` of each frame of a context. -/
def stackFramesOf (trace : Trace) (context : Text) : Checked (List (Text × UInt32)) :=
  match trace.contexts context with
  | none => .error .outOfRange
  | some frames => frames.mapM fun (frame : ℕ) => do
      let location ← vectorAt trace.locations frame
      pure (location.file, location.line)

/-- `PervertLayer::f_context_stack`.  The event is read before the frame is checked. -/
def f_context_stack (trace : Trace) (frame : ℤ) : Checked (Option (List (Text × UInt32))) := do
  let event ← vectorAt trace.events frame
  if trace.events.length ≤ toUnsigned frame then pure none
  else
    let stack ← stackFramesOf trace event.context
    pure (some stack)

/-- `root["type"]`. -/
def typeLetter : EventType → Checked Text
  | .MALLOC => pure "m".toList
  | .FREE => pure "f".toList
  | .READ => pure "r".toList
  | .WRITE => pure "w".toList
  | .END => .error (.assertion "Control should never reach here!")

/-- The JSON object of `/f/context_events`: `addr` and `index` of each event. -/
structure ContextEvents where
  type : Text
  events : List (ℤ × ℤ)
  deriving DecidableEq, Repr

/-- The loop over the context, which takes every `delta`-th event. -/
def sampleLoop (delta : ℤ) : List Event → ℤ → Checked (List (ℤ × ℤ))
  | [], _ => pure []
  | event :: rest, count => do
      let count' ← intAdd count 1
      if delta = 0 then .error .divisionByZero
      else
        let events ← sampleLoop delta rest count'
        if count.tmod delta = 0 then
          pure ((toInt event.arg1.toNat, toInt event.index.toNat) :: events)
        else pure events

/-- `PervertLayer::f_context_events`. -/
def f_context_events (trace : Trace) (frame : ℤ) : Checked (Option ContextEvents) :=
  if trace.events.length ≤ toUnsigned frame then pure none
  else do
    let event ← vectorAt trace.events frame
    let type ← typeLetter event.type
    let total := toInt (trace.byContext event.context).length
    let delta := total.tdiv 32 + 1
    if event.isAccess then
      let events ← sampleLoop delta (contextEvents trace event.context) 0
      pure (some ⟨type, events⟩)
    else pure (some ⟨type, []⟩)

/-- The loop over the context with the line of the event before. -/
def derivLoop : List Event → ℤ → Checked (List (ℤ × ℤ))
  | [], _ => pure []
  | event :: rest, lastLine => do
      let line := toInt (event.arg1 / 1024).toNat
      let difference ← intAdd line (-lastLine)
      let delta ← intAbs difference
      let events ← derivLoop rest line
      pure ((toInt event.index.toNat, delta) :: events)

/-- `PervertLayer::f_context_deriv`: `index` and `delta` of each event. -/
def f_context_deriv (trace : Trace) (frame : ℤ) : Checked (Option (List (ℤ × ℤ))) :=
  if trace.events.length ≤ toUnsigned frame then pure none
  else do
    let event ← vectorAt trace.events frame
    if event.isAccess then
      let events ← derivLoop (contextEvents trace event.context) 0
      pure (some events)
    else pure (some [])

/-- The bin of a distance, from bin `i` on for `n` bins. -/
def findBin (delta : ℤ) : ℕ → ℕ → Option ℕ
  | 0, _ => none
  | n + 1, i => if delta ≤ 4 then some i else findBin (delta >>> (2 : ℕ)) n (i + 1)

/-- `histogram[i]++` in the bin of the distance, if there is one. -/
def countDelta (delta : ℤ) (histogram : List ℤ) : Checked (List ℤ) :=
  match findBin delta 10 0 with
  | none => pure histogram
  | some i => do
      let count ← vectorAt histogram i
      let count ← intAdd count 1
      pure (histogram.set i count)

/-- The loop over the context with the address of the event before, `-1` for none. -/
def histoLoop : List Event → ℤ → List ℤ → Checked (List ℤ)
  | [], _, histogram => pure histogram
  | event :: rest, lastAddr, histogram =>
      let addr := toInt event.arg1.toNat
      if lastAddr = -1 then histoLoop rest addr histogram
      else do
        let difference ← intAdd addr (-lastAddr)
        let delta ← intAbs difference
        let histogram ← countDelta delta histogram
        histoLoop rest addr histogram

/-- `PervertLayer::f_context_histo`. -/
def f_context_histo (trace : Trace) (frame : ℤ) : Checked (Option (List ℤ)) :=
  if trace.events.length ≤ toUnsigned frame then pure none
  else do
    let event ← vectorAt trace.events frame
    let histogram := List.replicate 10 0
    if event.isAccess then
      let histogram ← histoLoop (contextEvents trace event.context) (-1) histogram
      pure (some histogram)
    else pure (some histogram)

/-! ## They answer every frame in range -/

/-- The frames of a trace. -/
def InRange (trace : Trace) (frame : ℤ) : Prop := 0 ≤ frame ∧ frame < trace.events.length

/-- The number of events and the addresses are `int`s. -/
structure Fits (trace : Trace) : Prop where
  length : trace.events.length < 2 ^ 31
  address : ∀ e ∈ trace.events, e.arg1.toNat < 2 ^ 31

instance (trace : Trace) : Decidable (Fits trace) :=
  decidable_of_iff (trace.events.length < 2 ^ 31 ∧ ∀ e ∈ trace.events, e.arg1.toNat < 2 ^ 31)
    ⟨fun h => ⟨h.1, h.2⟩, fun h => ⟨h.length, h.address⟩⟩

section Returns

variable {t : Trace} {frame : ℤ}

/-- A frame in range is that of an event, and passes the check. -/
lemma InRange.event (h : InRange t frame) (hfits : Fits t) :
    ∃ f e, frame = (f : ℕ) ∧ f < t.events.length ∧ t.events[f]? = some e ∧ e ∈ t.events ∧
      ¬ t.events.length ≤ toUnsigned frame := by
  obtain ⟨f, rfl⟩ := Int.eq_ofNat_of_zero_le h.1
  have hf : f < t.events.length := by
    have := h.2
    omega
  have hlength := hfits.length
  refine ⟨f, t.events[f], rfl, hf, List.getElem?_eq_getElem hf, List.getElem_mem hf, ?_⟩
  rw [toUnsigned]
  omega

/-- **The memory view of a frame.** -/
theorem f_mem_status_returns (hloaded : Loaded t) (hfits : Fits t) (h : InRange t frame)
    (window : ℤ) : ∃ answer, f_mem_status t frame window = .ok (some answer) := by
  obtain ⟨f, e, rfl, hf, -⟩ := h.event hfits
  obtain ⟨snapshot, hsnapshot⟩ := hloaded.snapshot hf
  exact ⟨_, f_mem_status_eq hf hsnapshot window⟩

lemma mem_contextEvents {context : Text} {e : Event} (h : e ∈ contextEvents t context) :
    e ∈ t.events := by
  obtain ⟨i, -, hi⟩ := List.mem_filterMap.mp h
  exact List.mem_of_getElem? hi

lemma stackFramesOf_returns (hloaded : Loaded t) {e : Event} (he : e ∈ t.events) :
    ∃ stack, stackFramesOf t e.context = .ok stack := by
  obtain ⟨context, hcontext, hlt⟩ := hloaded.context he
  simp only [stackFramesOf, hcontext, checked_mapM_eq_ok]
  refine checked_forall₂_returns_iff.mpr fun i hi => ?_
  rw [vectorAt_of_getElem? (List.getElem?_eq_getElem (hlt i hi))]
  exact ⟨_, rfl⟩

/-- **The stack of a frame.** -/
theorem f_context_stack_returns (hloaded : Loaded t) (hfits : Fits t) (h : InRange t frame) :
    ∃ stack, f_context_stack t frame = .ok (some stack) := by
  obtain ⟨f, e, rfl, -, hget, he, hcheck⟩ := h.event hfits
  obtain ⟨stack, hstack⟩ := stackFramesOf_returns hloaded he
  refine ⟨stack, ?_⟩
  rw [f_context_stack, vectorAt_of_getElem? hget]
  show (if t.events.length ≤ toUnsigned f then pure none
    else stackFramesOf t e.context >>= fun stack => pure (some stack)) = _
  rw [if_neg hcheck, hstack]
  rfl

lemma typeLetter_returns {type : EventType} (h : type ≠ .END) : ∃ s, typeLetter type = .ok s := by
  cases type with
  | END => exact absurd rfl h
  | MALLOC | FREE | READ | WRITE => exact ⟨_, rfl⟩

/-- The sampling loop, while the counter does not overflow. -/
lemma sampleLoop_returns {delta : ℤ} (hdelta : delta ≠ 0) : ∀ (es : List Event) (count : ℕ),
    count + es.length < 2 ^ 31 → ∃ events, sampleLoop delta es count = .ok events
  | [], _, _ => ⟨[], rfl⟩
  | e :: es, count, h => by
      rw [List.length_cons] at h
      obtain ⟨events, hevents⟩ := sampleLoop_returns hdelta es (count + 1) (by omega)
      have hcount : intAdd (count : ℤ) 1 = .ok ((count + 1 : ℕ) : ℤ) :=
        intAdd_eq_ok.mpr ⟨by rw [InInt]; omega, by push_cast; rfl⟩
      rw [sampleLoop, hcount]
      show ∃ events, (if delta = 0 then _ else sampleLoop delta es (count + 1 : ℕ) >>= fun events =>
        if (count : ℤ).tmod delta = 0 then
          pure ((toInt e.arg1.toNat, toInt e.index.toNat) :: events)
        else pure events) = Except.ok events
      rw [if_neg hdelta, hevents]
      show ∃ events', (if (count : ℤ).tmod delta = 0 then
        Except.ok ((toInt e.arg1.toNat, toInt e.index.toNat) :: events) else .ok events)
        = .ok events'
      split_ifs
      · exact ⟨_, rfl⟩
      · exact ⟨_, rfl⟩

lemma contextEvents_eq (hloaded : Loaded t) (context : Text) :
    contextEvents t context = t.events.filter fun e => e.context = context := by
  rw [contextEvents, hloaded.byContext, pointees_positions]

lemma contextEvents_length (hloaded : Loaded t) (context : Text) :
    (t.byContext context).length = (contextEvents t context).length ∧
      (contextEvents t context).length ≤ t.events.length := by
  rw [contextEvents_eq hloaded, hloaded.byContext, positions_length]
  exact ⟨rfl, List.length_filter_le _ _⟩

/-- A frame that is an `int` passes the check of the handlers. -/
lemma frame_passes {f : ℕ} {e : Event} (hf : f < 2 ^ 31) (hget : t.events[f]? = some e) :
    ¬ t.events.length ≤ toUnsigned f := by
  have := lt_of_getElem? hget
  rw [toUnsigned]
  omega

/-- The sampled events of a context whose counter is an `int`. -/
lemma f_context_events_answers (hloaded : Loaded t) {f : ℕ} {e : Event} (hf : f < 2 ^ 31)
    (hget : t.events[f]? = some e) (hn : (t.byContext e.context).length < 2 ^ 31) :
    ∃ answer, f_context_events t f = .ok (some answer) := by
  obtain ⟨type, htype⟩ := typeLetter_returns (hloaded.type_ne_END (List.mem_of_getElem? hget))
  have heq := (contextEvents_length hloaded e.context).1
  have htotal : toInt (t.byContext e.context).length = (t.byContext e.context).length :=
    toInt_of_inInt (by rw [InInt]; omega)
  have hdelta : ((t.byContext e.context).length : ℤ).tdiv 32 + 1 ≠ 0 := by
    rw [Int.tdiv_eq_ediv_of_nonneg (by omega)]
    omega
  obtain ⟨events, hevents⟩ := sampleLoop_returns hdelta (contextEvents t e.context) 0 (by omega)
  rw [Int.natCast_zero] at hevents
  rw [f_context_events, if_neg (frame_passes hf hget), vectorAt_of_getElem? hget]
  show ∃ answer, (typeLetter e.type >>= _) = _
  rw [htype]
  show ∃ answer, (if e.isAccess then sampleLoop (_ + 1) _ _ >>= fun events =>
    pure (some (ContextEvents.mk type events)) else _) = _
  rw [htotal]
  split_ifs
  · rw [hevents]
    exact ⟨_, rfl⟩
  · exact ⟨_, rfl⟩

/-- **The events of a frame's context.** -/
theorem f_context_events_returns (hloaded : Loaded t) (hfits : Fits t) (h : InRange t frame) :
    ∃ answer, f_context_events t frame = .ok (some answer) := by
  obtain ⟨f, e, rfl, hf, hget, -⟩ := h.event hfits
  obtain ⟨heq, hle⟩ := contextEvents_length hloaded e.context
  have hlength := hfits.length
  exact f_context_events_answers hloaded (by omega) hget (by omega)

/-- The distance of two numbers that fit. -/
lemma distance_eq {a : ℕ} {b : ℤ} (ha : a < 2 ^ 31) (h0 : 0 ≤ b) (h1 : b < 2 ^ 31) :
    intAdd a (-b) = .ok (a - b) ∧ intAbs (a - b) = .ok ((a : ℤ) - b).natAbs := by
  constructor
  · exact intAdd_eq_ok.mpr ⟨by rw [InInt]; omega, by omega⟩
  · rw [intAbs, if_pos (by rw [InInt]; omega)]

/-- The loop over the lines, while they fit. -/
lemma derivLoop_returns : ∀ {es : List Event} {lastLine : ℤ},
    (∀ e ∈ es, e.arg1.toNat < 2 ^ 31) → 0 ≤ lastLine → lastLine < 2 ^ 31 →
      ∃ events, derivLoop es lastLine = .ok events
  | [], _, _, _, _ => ⟨[], rfl⟩
  | e :: es, lastLine, h, h0, h1 => by
      have he := h e List.mem_cons_self
      have hline : toInt (e.arg1 / 1024).toNat = (e.arg1.toNat / 1024 : ℕ) := by
        rw [UInt64.toNat_div]
        exact toInt_of_inInt (by rw [InInt]; simp; omega)
      obtain ⟨events, hevents⟩ := @derivLoop_returns es (e.arg1.toNat / 1024 : ℕ)
        (fun x hx => h x (List.mem_cons_of_mem _ hx)) (by omega) (by omega)
      obtain ⟨hdifference, hdelta⟩ :=
        @distance_eq (e.arg1.toNat / 1024) lastLine (by omega) h0 h1
      have hround : derivLoop (e :: es) lastLine
          = (intAdd (toInt (e.arg1 / 1024).toNat) (-lastLine) >>= fun difference =>
              intAbs difference >>= fun delta =>
              derivLoop es (toInt (e.arg1 / 1024).toNat) >>= fun events =>
              pure ((toInt e.index.toNat, delta) :: events)) := rfl
      rw [hround, hline, hevents, hdifference, checked_ok_bind, hdelta]
      exact ⟨_, rfl⟩

/-- **The lines of a frame's context.** -/
theorem f_context_deriv_returns (hfits : Fits t) (h : InRange t frame) :
    ∃ events, f_context_deriv t frame = .ok (some events) := by
  obtain ⟨f, e, rfl, -, hget, he, hcheck⟩ := h.event hfits
  obtain ⟨events, hevents⟩ := @derivLoop_returns (contextEvents t e.context) 0
    (fun x hx => hfits.address x (mem_contextEvents hx)) (le_refl 0) (by decide)
  rw [f_context_deriv, if_neg hcheck, vectorAt_of_getElem? hget]
  show ∃ events, (if e.isAccess then derivLoop _ 0 >>= _ else _) = _
  split_ifs
  · rw [hevents]
    exact ⟨_, rfl⟩
  · exact ⟨_, rfl⟩

/-- A histogram after `n` distances. -/
def Counted (histogram : List ℤ) (n : ℕ) : Prop :=
  histogram.length = 10 ∧ ∀ count ∈ histogram, 0 ≤ count ∧ count ≤ n

lemma findBin_lt : ∀ {n i j : ℕ} {delta : ℤ}, findBin delta n i = some j → i ≤ j ∧ j < i + n
  | n + 1, i, j, delta, h => by
      rw [findBin] at h
      split_ifs at h
      · cases h
        omega
      · have := findBin_lt h
        omega

/-- **One distance.** -/
lemma countDelta_returns {histogram : List ℤ} {n : ℕ} (h : Counted histogram n)
    (hn : n + 1 < 2 ^ 31) (delta : ℤ) :
    ∃ histogram', countDelta delta histogram = .ok histogram' ∧ Counted histogram' (n + 1) := by
  rw [countDelta]
  cases hbin : findBin delta 10 0 with
  | none =>
      refine ⟨histogram, rfl, h.1, fun count hcount => ?_⟩
      have := h.2 count hcount
      omega
  | some i =>
      have hi : i < histogram.length := by
        have := (findBin_lt hbin).2
        rw [h.1]
        omega
      have hcount := h.2 histogram[i] (List.getElem_mem hi)
      have hadd : intAdd histogram[i] 1 = .ok (histogram[i] + 1) :=
        intAdd_eq_ok.mpr ⟨by rw [InInt]; omega, rfl⟩
      refine ⟨histogram.set i (histogram[i] + 1), ?_, by rw [List.length_set, h.1], ?_⟩
      · simp only [vectorAt_of_getElem? (List.getElem?_eq_getElem hi)]
        show (intAdd histogram[i] 1 >>= _) = _
        rw [hadd]
        rfl
      · intro count hmem
        rcases List.mem_or_eq_of_mem_set hmem with hmem | rfl
        · have := h.2 count hmem
          omega
        · omega

/-- The loop over the addresses, while they fit and the counters do. -/
lemma histoLoop_returns : ∀ {es : List Event} {lastAddr : ℤ} {histogram : List ℤ} {n : ℕ},
    (∀ e ∈ es, e.arg1.toNat < 2 ^ 31) → -1 ≤ lastAddr → lastAddr < 2 ^ 31 →
      Counted histogram n → n + es.length < 2 ^ 31 →
      ∃ histogram', histoLoop es lastAddr histogram = .ok histogram'
  | [], _, histogram, _, _, _, _, _, _ => ⟨histogram, rfl⟩
  | e :: es, lastAddr, histogram, n, h, h0, h1, hcounted, hn => by
      have he := h e List.mem_cons_self
      rw [List.length_cons] at hn
      have haddr : toInt e.arg1.toNat = e.arg1.toNat :=
        toInt_of_inInt (by rw [InInt]; omega)
      have hrest : ∀ histogram' m, Counted histogram' m → m ≤ n + 1 →
          ∃ histogram'', histoLoop es e.arg1.toNat histogram' = .ok histogram'' :=
        fun histogram' m hcounted' hm => histoLoop_returns
          (fun x hx => h x (List.mem_cons_of_mem _ hx)) (by omega) (by omega) hcounted' (by omega)
      rw [histoLoop]
      simp only [haddr]
      split_ifs with hfirst
      · exact hrest histogram n hcounted (Nat.le_succ n)
      · obtain ⟨hdifference, hdelta⟩ := @distance_eq e.arg1.toNat lastAddr he (by omega) h1
        obtain ⟨histogram', hcount, hcounted'⟩ := countDelta_returns hcounted (by omega)
          (((e.arg1.toNat : ℤ) - lastAddr).natAbs : ℤ)
        obtain ⟨histogram'', hloop⟩ := hrest histogram' (n + 1) hcounted' (le_refl _)
        rw [hdifference, checked_ok_bind, hdelta, checked_ok_bind, hcount, checked_ok_bind]
        exact ⟨histogram'', hloop⟩

/-- **The histogram of a frame's context.** -/
theorem f_context_histo_returns (hloaded : Loaded t) (hfits : Fits t) (h : InRange t frame) :
    ∃ histogram, f_context_histo t frame = .ok (some histogram) := by
  obtain ⟨f, e, rfl, -, hget, he, hcheck⟩ := h.event hfits
  have hlength := hfits.length
  have hle := (contextEvents_length hloaded e.context).2
  have hzero : Counted (List.replicate 10 0) 0 := by
    refine ⟨rfl, fun count hcount => ?_⟩
    rw [List.eq_of_mem_replicate hcount]
    exact ⟨le_refl _, le_refl _⟩
  obtain ⟨histogram, hloop⟩ := @histoLoop_returns (contextEvents t e.context) (-1)
    (List.replicate 10 0) 0 (fun x hx => hfits.address x (mem_contextEvents hx)) (le_refl _)
    (by decide) hzero (by omega)
  rw [f_context_histo, if_neg hcheck, vectorAt_of_getElem? hget]
  show ∃ histogram, (if e.isAccess then histoLoop _ (-1) (List.replicate 10 0) >>= _ else _) = _
  split_ifs
  · rw [hloop]
    exact ⟨_, rfl⟩
  · exact ⟨_, rfl⟩

end Returns

end PerVERT
