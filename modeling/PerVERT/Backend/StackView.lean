import PerVERT.Backend.RecordedRun

/-!
# The stack view

`/f/context_stack` sends the rows that the stack text of an event was resolved to when the trace
was parsed.

* `ContextsResolved` — what the parser stores for each stack text;
  `ContextsResolved.parseTraceLoop` is the step over its rounds.
* **`Loaded.f_context_stack_eq`** — the answer for any frame of any loaded trace.
* **`contextStack_shows_recorder`** — the answer for a frame that the tool printed, from the call
  stack of that moment.
-/

namespace PerVERT

/-- The entries of the stack texts hold the frames of the addresses in front of the end, without
the unknown ones at the outermost end. -/
structure ContextsResolved (p : Parsed) : Prop where
  table : ∃ rows, p.locations = lineTable rows
  known : ∀ e ∈ p.events, (p.contexts e.context).isSome = true
  frames : ∀ rows s context, p.locations = lineTable rows → p.contexts s = some context →
    ∃ as, ReadsAddresses s as ∧
      context = (stackFrames rows as).rdropWhile (isUnknown (lineTable rows))

/-- `file` and `line` of the rows of the addresses, the unknown ones at the outermost end left
out. -/
def stackRows (rows : List Location) (as : List UInt64) : List (Text × UInt32) :=
  ((stackFrames rows as).rdropWhile (isUnknown (lineTable rows))).filterMap fun frame =>
    ((lineTable rows)[frame]?).map fun location => (location.file, location.line)

section Stack

variable {sym : Symbols} {junk : Junk} {location : Location} {lines : Text} {t : Trace}
  {cs : List Callback} {p p' : Parsed} {rows : List Location}

/-- What a stack text is resolved to. -/
lemma resolveContext_frames {fuel : ℕ} {s : Text} {context : List ℕ}
    (h : resolveContext fuel junk (lineTable rows) s = .ok context) :
    ∃ as, ReadsAddresses s as ∧
      context = (stackFrames rows as).rdropWhile (isUnknown (lineTable rows)) := by
  obtain ⟨frames, hloop, -⟩ := checked_bind_eq_ok.mp h
  obtain ⟨as, has, rfl⟩ := contextLoop_eq_ok hloop
  rw [resolveContext_of_known hloop (known_of_resolveContext hloop h)] at h
  exact ⟨as, has, (Except.ok.inj h).symm⟩

/-- **The parser of traces** resolves the stack texts of its events. -/
lemma ContextsResolved.parseTraceLoop {fuel : ℕ} : ∀ {n : ℕ} {ifs : Istream} {event : Event}
    {p : Parsed}, ContextsResolved p → parseTraceLoop fuel junk n ifs event p = .ok p' →
      ContextsResolved p'
  | n + 1, ifs, event, p, hp, h => by
      obtain ⟨e, ifs', -, ⟨-, rfl⟩ | ⟨-, p₁, hp₁, h⟩⟩ := parseTraceLoop_round h
      · exact hp
      · have hlooks := parseContext_looksUp hp₁
        refine ContextsResolved.parseTraceLoop (p := { p₁ with events := p₁.events ++ [_] })
          ⟨?_, fun x hx => ?_, fun rows c context hlocs hc => ?_⟩ h
        · obtain ⟨rows, hrows⟩ := hp.table
          exact ⟨rows, hlooks.locations.trans hrows⟩
        · rcases List.mem_append.mp hx with hx | hx
          · rw [hlooks.events] at hx
            exact (hlooks.isSome_iff _).mpr (Or.inr (hp.known x hx))
          · rw [List.mem_singleton.mp hx]
            exact hlooks.known
        · have hlocs : p.locations = lineTable rows := hlooks.locations.symm.trans hlocs
          rcases hlooks.resolved c context hc with hold | ⟨rfl, hresolve⟩
          · exact hp.frames rows c context hlocs hold
          · rw [hlocs] at hresolve
            exact resolveContext_frames hresolve

/-- The rows of frames that are locations of the table. -/
lemma mapM_frames {locations : List Location} {frames : List ℕ}
    (h : ∀ frame ∈ frames, frame < locations.length) :
    (frames.mapM fun (frame : ℕ) => do
        let location ← vectorAt locations frame
        pure (location.file, location.line))
      = .ok (frames.filterMap fun frame =>
          (locations[frame]?).map fun location => (location.file, location.line)) := by
  rw [checked_mapM_eq_ok]
  induction frames with
  | nil => exact List.Forall₂.nil
  | cons frame frames ih =>
      have hget := List.getElem?_eq_getElem (h frame List.mem_cons_self)
      rw [List.filterMap_cons, hget]
      refine List.Forall₂.cons ?_ (ih fun f hf => h f (List.mem_cons_of_mem _ hf))
      rw [vectorAt_of_getElem? hget]
      rfl

/-- The stack view of an event whose stack text is resolved. -/
lemma f_context_stack_of_context {f : ℕ} {e : Event} {as : List UInt64} (hf : f < 2 ^ 31)
    (hget : t.events[f]? = some e) (hlocs : t.locations = lineTable rows)
    (hcontext : t.contexts e.context
      = some ((stackFrames rows as).rdropWhile (isUnknown (lineTable rows)))) :
    f_context_stack t f = .ok (some (stackRows rows as)) := by
  have hstack : stackFramesOf t e.context = .ok (stackRows rows as) := by
    rw [stackFramesOf, hcontext, hlocs]
    exact mapM_frames fun frame hframe =>
      stackFrames_lt frame ((List.rdropWhile_prefix _ _).subset hframe)
  rw [f_context_stack, vectorAt_of_getElem? hget]
  show (if t.events.length ≤ toUnsigned f then pure none
    else stackFramesOf t e.context >>= fun stack => pure (some stack)) = _
  rw [if_neg (frame_passes hf hget), hstack]
  rfl

/-- **The stack view of a loaded trace.**  For every trace that a constructor returned and every
frame of it: the rows of the addresses in the stack text of its event, innermost first. -/
theorem Loaded.f_context_stack_eq (h : Loaded t) :
    ∃ rows, t.locations = lineTable rows ∧ ∀ (f : ℕ) (e : Event),
      f < 2 ^ 31 → t.events[f]? = some e →
      ∃ as, ReadsAddresses e.context as ∧ f_context_stack t f = .ok (some (stackRows rows as)) := by
  obtain ⟨p, hload, hp⟩ := h.exists_load_of (P := ContextsResolved)
    (fun rows okay => ⟨⟨rows, rfl⟩, by simp, by simp⟩)
    (fun hp _ hloop => hp.parseTraceLoop hloop) fun _ hp => ⟨hp.table, hp.known, hp.frames⟩
  obtain ⟨rows, hrows⟩ := hp.table
  obtain ⟨-, m, -, himage, rfl⟩ := load_mapped hload
  refine ⟨rows, hrows, fun f e hf hget => ?_⟩
  obtain ⟨x, hx, rfl⟩ := List.mem_map.mp (List.mem_of_getElem? hget)
  have hcontext : (mapEvent m x).context = x.context := (remapEvent_fields (himage x hx)).2.2.1
  obtain ⟨context, hsome⟩ := Option.isSome_iff_exists.mp (hp.known x hx)
  obtain ⟨as, has, rfl⟩ := hp.frames rows _ _ hrows hsome
  rw [hcontext]
  refine ⟨as, has, f_context_stack_of_context hf hget hrows ?_⟩
  rw [hcontext]
  exact hsome

/-- **The stack view shows the tool.**  For every run of the tool that is constructed from, and
every frame, the stack view lists the rows of the addresses that the tool printed for it: the
instruction pointer and the call stack, without the outermost address. -/
theorem contextStack_shows_recorder (hips : ∀ r ∈ (Recorder.run cs).trace, r.IpsKnown)
    (h : Constructs junk location lines (traceText sym (Recorder.run cs).trace) t) {k : ℕ}
    {r : Record} (hk : k < 2 ^ 31) (hr : (Recorder.run cs).trace[k]? = some r) :
    f_context_stack t k = .ok (some (stackRows (lineRows location lines) r.ips.dropLast)) := by
  obtain ⟨p, hload, hlocs, htold⟩ := exists_load_of_constructs hips h
  obtain ⟨n, hrun⟩ := h
  have hloaded : Loaded t := ⟨n, junk, location, _, _, hrun n (le_refl n)⟩
  obtain ⟨rows, hrows, hstack⟩ := hloaded.f_context_stack_eq
  obtain ⟨-, m, -, himage, rfl⟩ := load_mapped hload
  have hrows' : rows = lineRows location lines := (List.cons.inj (hrows.symm.trans hlocs)).2
  obtain ⟨x, hx⟩ : ∃ x, p.events[k]? = some x := by
    have hlen := htold.length_eq
    have hlt := lt_of_getElem? hr
    exact ⟨_, List.getElem?_eq_getElem (by simpa [← hlen] using hlt)⟩
  have hcontext : x.context = stackText sym r := by
    obtain ⟨hk₁, rfl⟩ := List.getElem?_eq_some_iff.mp hr
    obtain ⟨hk₂, rfl⟩ := List.getElem?_eq_some_iff.mp hx
    have htells := (List.forall₂_iff_get.mp htold).2 k (by simpa using hk₁) hk₂
    simpa [Record.entry] using htells.context
  obtain ⟨as, has, hanswer⟩ := hstack k (mapEvent m x) hk (by
    show (p.events.map (mapEvent m))[k]? = _
    rw [List.getElem?_map, hx]
    rfl)
  rw [(remapEvent_fields (himage x (List.mem_of_getElem? hx))).2.2.1, hcontext] at has
  rw [hanswer, has.unique (readsAddresses_stackText (hips r (List.mem_of_getElem? hr))), hrows']

end Stack

/-- The read of the sample: its row and that of the call around it, without the outermost call. -/
theorem sampleRun_stack : ∃ t, Constructs ⟨'?', 0⟩ ⟨[], 0, 0⟩ goodLines
      (traceText noSymbols (Recorder.run sampleRun).trace) t ∧
    f_context_stack t (1 : ℕ)
      = .ok (some (stackRows (lineRows ⟨[], 0, 0⟩ goodLines) [0x12, 0x11])) := by
  obtain ⟨t, ht⟩ := sampleRun_constructs
  exact ⟨t, ht, contextStack_shows_recorder (k := 1) (by decide) ht (by decide) rfl⟩

end PerVERT
