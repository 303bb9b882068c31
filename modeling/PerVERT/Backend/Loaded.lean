import PerVERT.Backend.Construct
import PerVERT.Backend.MemStatus

/-!
# Loaded traces

What is known of a trace whose constructor returned, whatever the two files hold.

* `ContextsKnown` — every event's stack text has been resolved, to locations of the table;
  `ContextsKnown.parseTraceLoop` is the step over the rounds of the parser.
* `EventsIndexed` — every event carries its position.
* `Loaded` — the constructor returned; **`Loaded.exists_load_of`** takes it back to its last two
  passes, with what the loop over the records keeps.
* **`Loaded.context`**, **`Loaded.index`**, **`Loaded.type_ne_END`**, **`Loaded.snapshot`** — what
  the handlers look up for an event is there.
-/

namespace PerVERT

/-! ## Contexts -/

/-- The stack texts of the events are resolved, and a resolved stack text is locations of the
table. -/
structure ContextsKnown (p : Parsed) : Prop where
  known : ∀ e ∈ p.events, (p.contexts e.context).isSome = true
  frames : ∀ s context, p.contexts s = some context → ∀ frame ∈ context, frame < p.locations.length

section Parse

variable {junk : Junk} {rows : List Location} {p p' : Parsed}

/-- A stack text is resolved to locations of the table. -/
lemma resolveContext_lt {fuel : ℕ} {s : Text} {context : List ℕ}
    (h : resolveContext fuel junk (lineTable rows) s = .ok context) :
    ∀ frame ∈ context, frame < (lineTable rows).length := by
  obtain ⟨frames, hloop, -⟩ := checked_bind_eq_ok.mp h
  obtain ⟨as, has, rfl⟩ := contextLoop_eq_ok hloop
  rw [resolveContext_of_known hloop (known_of_resolveContext hloop h)] at h
  cases h
  intro frame hframe
  exact stackFrames_lt frame ((List.rdropWhile_prefix _ _).subset hframe)

/-- Looking a stack text up keeps what is known, and makes the text known. -/
lemma ContextsKnown.parseContext {fuel : ℕ} {s : Text} (hp : ContextsKnown p)
    (hlocs : p.locations = lineTable rows) (h : parseContext fuel junk p s = .ok p') :
    ContextsKnown p' ∧ p'.locations = lineTable rows ∧ (p'.contexts s).isSome = true := by
  have hlooks := parseContext_looksUp h
  refine ⟨⟨fun e he => ?_, fun c frames hframes => ?_⟩, hlooks.locations.trans hlocs, hlooks.known⟩
  · rw [hlooks.events] at he
    exact (hlooks.isSome_iff _).mpr (Or.inr (hp.known e he))
  · rw [hlooks.locations]
    rcases hlooks.resolved c frames hframes with hold | ⟨-, hresolve⟩
    · exact hp.frames c frames hold
    · rw [hlocs] at hresolve ⊢
      exact resolveContext_lt hresolve

/-- **The parser of traces** keeps the contexts of its events known. -/
lemma ContextsKnown.parseTraceLoop {fuel : ℕ} : ∀ {n : ℕ} {ifs : Istream} {event : Event}
    {p : Parsed}, ContextsKnown p → p.locations = lineTable rows →
      parseTraceLoop fuel junk n ifs event p = .ok p' → ContextsKnown p'
  | n + 1, ifs, event, p, hp, hlocs, h => by
      obtain ⟨e, ifs', -, ⟨-, rfl⟩ | ⟨-, p₁, hp₁, h⟩⟩ := parseTraceLoop_round h
      · exact hp
      · obtain ⟨hknown, hlocs₁, hs⟩ := hp.parseContext hlocs hp₁
        refine ContextsKnown.parseTraceLoop (p := { p₁ with events := p₁.events ++ [_] })
          ⟨fun x hx => ?_, hknown.frames⟩ hlocs₁ h
        rcases List.mem_append.mp hx with hx | hx
        · exact hknown.known x hx
        · rw [List.mem_singleton.mp hx]
          exact hs

/-- The events carry their positions, as 32-bit numbers. -/
def EventsIndexed (p : Parsed) : Prop :=
  ∀ i e, p.events[i]? = some e → e.index = UInt32.ofNat i

lemma parseArguments_index {c : Char} {ifs ifs' : Istream} {event e : Event}
    (h : parseArguments c ifs event = .ok (e, ifs')) : e.index = event.index := by
  unfold parseArguments at h
  split at h <;> cases h <;> rfl

/-- **The parser of traces** numbers its events. -/
lemma EventsIndexed.parseTraceLoop {fuel : ℕ} : ∀ {n : ℕ} {ifs : Istream} {event : Event}
    {p : Parsed}, EventsIndexed p → parseTraceLoop fuel junk n ifs event p = .ok p' →
      EventsIndexed p'
  | n + 1, ifs, event, p, hp, h => by
      obtain ⟨e, ifs', hargs, ⟨-, rfl⟩ | ⟨-, p₁, hp₁, h⟩⟩ := parseTraceLoop_round h
      · exact hp
      · have hevents := (parseContext_looksUp hp₁).events
        refine EventsIndexed.parseTraceLoop (p := { p₁ with events := p₁.events ++ [_] }) ?_ h
        intro i x hx
        rcases getElem?_snoc.mp hx with hx | ⟨rfl, rfl⟩
        · rw [hevents] at hx
          exact hp i x hx
        · rw [hevents]
          exact parseArguments_index hargs

lemma parseLineLoop_locations : ∀ {n : ℕ} {ifs : Istream} {st st' : LineState},
    parseLineLoop n ifs st = .ok st' → ∃ rows, st'.locations = st.locations ++ rows
  | n + 1, ifs, st, st', h => by
      simp only [parseLineLoop] at h
      split_ifs at h
      · cases h
        exact ⟨[], by simp⟩
      · obtain ⟨rows, hrows⟩ := parseLineLoop_locations h
        have hline := parseLine_locations st.locations { st with locations := [] }
          (ifs.getline []).1
        simp only [List.append_nil] at hline
        rw [hrows, hline]
        exact ⟨_, by rw [List.append_assoc]⟩

/-- What the line parser leaves of a file it could open. -/
lemma parseLineFile_leaves {fuel : ℕ} {location : Location} {lines : Text} {b : Bool}
    (h : parseLineFile fuel location (some lines) Parsed.empty = .ok (b, p)) :
    ∃ rows, p.locations = lineTable rows ∧ p.events = [] ∧ p.contexts = fun _ => none := by
  simp only [parseLineFile] at h
  split_ifs at h
  · cases h
    exact ⟨[], rfl, rfl, rfl⟩
  · obtain ⟨file, -, h⟩ := checked_bind_eq_ok.mp h
    obtain ⟨st, hst, h⟩ := checked_bind_eq_ok.mp h
    cases h
    obtain ⟨rows, hrows⟩ := parseLineLoop_locations hst
    exact ⟨rows, hrows, rfl, rfl⟩

end Parse

/-! ## Loaded traces -/

/-- Some constructor call, with the line size of the server, has returned the trace. -/
def Loaded (t : Trace) : Prop :=
  ∃ fuel junk location linefile tracefile,
    Trace.construct fuel junk location linefile tracefile 1024 = .ok t

/-- A constructor call that returns a trace with some property. -/
lemma exists_loaded {fuel : ℕ} {junk : Junk} {location : Location}
    {linefile tracefile : Option Text} {P : Trace → Bool}
    (h : (Trace.construct fuel junk location linefile tracefile 1024).toOption.any P = true) :
    ∃ t, Loaded t ∧ P t = true := by
  obtain ⟨t, ht, hP⟩ := exists_of_any h
  exact ⟨t, ⟨fuel, junk, location, linefile, tracefile, ht⟩, hP⟩

section Facts

variable {t : Trace}

/-- **The rule of the constructor.**  What holds of the trace before its first event, and is kept by
the loop over the records, holds of the events that a loaded trace is built from. -/
lemma Loaded.exists_load_of {P : Parsed → Prop}
    (hstart : ∀ rows okay, P ⟨okay, lineTable rows, fun _ => none, []⟩)
    (hloop : ∀ {fuel junk n ifs event rows p p'}, P p → p.locations = lineTable rows →
      parseTraceLoop fuel junk n ifs event p = .ok p' → P p')
    (hokay : ∀ {p} okay, P p → P { p with okay }) (h : Loaded t) :
    ∃ p, Trace.load p 1024 = .ok t ∧ P p := by
  obtain ⟨fuel, junk, location, linefile, tracefile, h⟩ := h
  cases linefile with
  | none => exact absurd h (construct_ne_ok (Or.inl rfl))
  | some lines =>
      rw [Trace.construct, okayAnd_of_okay rfl] at h
      obtain ⟨p₁, hp₁, h⟩ := checked_bind_eq_ok.mp h
      obtain ⟨⟨b₁, p₂⟩, hline, hp₁⟩ := checked_bind_eq_ok.mp hp₁
      cases hp₁
      obtain ⟨rows, hlocs, hevents, hcontexts⟩ := parseLineFile_leaves hline
      have hp₂ : P { p₂ with okay := b₁ } := by
        have hP := hstart rows b₁
        rw [← hlocs, ← hevents, ← hcontexts] at hP
        exact hP
      obtain ⟨p₃, hp₃, hload⟩ := checked_bind_eq_ok.mp h
      refine ⟨p₃, hload, ?_⟩
      rw [okayAnd] at hp₃
      split_ifs at hp₃
      · obtain ⟨⟨b₃, p₄⟩, htrace, hp₃⟩ := checked_bind_eq_ok.mp hp₃
        cases hp₃
        cases tracefile with
        | none =>
            cases htrace
            exact hokay _ hp₂
        | some text =>
            obtain ⟨p₅, hparsed, htrace⟩ := checked_bind_eq_ok.mp htrace
            cases htrace
            exact hokay _ (hloop hp₂ hlocs hparsed)
      · cases hp₃
        exact hp₂

/-- **Where a loaded trace comes from.** -/
theorem Loaded.exists_load (h : Loaded t) :
    ∃ p, Trace.load p 1024 = .ok t ∧ ContextsKnown p :=
  h.exists_load_of (fun rows okay => ⟨by simp, by simp⟩)
    (fun hp hlocs hloop => hp.parseTraceLoop hlocs hloop) fun _ hp => ⟨hp.known, hp.frames⟩

/-- The events of a loaded trace are those that were read, with other addresses. -/
lemma Loaded.exists_read (h : Loaded t) {e : Event} (he : e ∈ t.events) :
    ∃ p, Trace.load p 1024 = .ok t ∧ ContextsKnown p ∧
      ∃ x ∈ p.events, e.type = x.type ∧ e.context = x.context := by
  obtain ⟨p, hload, hknown⟩ := h.exists_load
  obtain ⟨-, m, -, himage, rfl⟩ := load_mapped hload
  obtain ⟨x, hx, rfl⟩ := List.mem_map.mp he
  obtain ⟨-, htype, hcontext, -⟩ := remapEvent_fields (himage x hx)
  exact ⟨p, hload, hknown, x, hx, htype, hcontext⟩

lemma Loaded.byContext (h : Loaded t) (c : Text) :
    t.byContext c = positions (fun e => e.context = c) t.events := by
  obtain ⟨p, hload, -⟩ := h.exists_load
  obtain ⟨-, m, -, himage, rfl⟩ := load_mapped hload
  show positions (fun e => e.context = c) p.events
    = positions (fun e => e.context = c) (p.events.map (mapEvent m))
  rw [positions_map]
  refine positions_congr fun e he => ?_
  rw [(remapEvent_fields (himage e he)).2.2.1]

/-- The list of a context points at its events, in their order. -/
lemma Loaded.mem_byContext (h : Loaded t) {c : Text} {i : ℕ} :
    i ∈ t.byContext c ↔ ∃ e, t.events[i]? = some e ∧ e.context = c := by
  simp [h.byContext, mem_positions]

lemma Loaded.byContext_ascending (h : Loaded t) (c : Text) :
    (t.byContext c).Pairwise (· < ·) := by
  rw [h.byContext]
  exact positions_ascending _ _

lemma Loaded.byContext_lt (h : Loaded t) {c : Text} {i : ℕ} (hi : i ∈ t.byContext c) :
    i < t.events.length := by
  obtain ⟨e, he, -⟩ := h.mem_byContext.mp hi
  exact lt_of_getElem? he

/-- **The index of an event** is its position. -/
theorem Loaded.index (h : Loaded t) {i : ℕ} {e : Event} (he : t.events[i]? = some e) :
    e.index = UInt32.ofNat i := by
  obtain ⟨p, hload, hindexed⟩ := h.exists_load_of (P := EventsIndexed)
    (fun _ _ i e he => by simp at he) (fun hp _ hloop => hp.parseTraceLoop hloop)
    fun _ hp => hp
  obtain ⟨-, m, -, himage, rfl⟩ := load_mapped hload
  change (p.events.map (mapEvent m))[i]? = some e at he
  rw [List.getElem?_map] at he
  obtain ⟨x, hx, rfl⟩ := Option.map_eq_some_iff.mp he
  rw [(remapEvent_fields (himage x (List.mem_of_getElem? hx))).1]
  exact hindexed i x hx

/-- **The context of an event** is there, and so are its locations. -/
theorem Loaded.context (h : Loaded t) {e : Event} (he : e ∈ t.events) :
    ∃ context, t.contexts e.context = some context ∧
      ∀ frame ∈ context, frame < t.locations.length := by
  obtain ⟨p, hload, hknown, x, hx, -, hcontext⟩ := h.exists_read he
  obtain ⟨-, m, -, -, rfl⟩ := load_mapped hload
  obtain ⟨context, hsome⟩ := Option.isSome_iff_exists.mp (hknown.known x hx)
  rw [hcontext]
  exact ⟨context, hsome, hknown.frames _ _ hsome⟩

/-- **The type of an event** is one of the four. -/
theorem Loaded.type_ne_END (h : Loaded t) {e : Event} (he : e ∈ t.events) : e.type ≠ .END := by
  obtain ⟨p, hload, -, x, hx, htype, -⟩ := h.exists_read he
  rw [htype]
  obtain ⟨i, hi⟩ := List.mem_iff_getElem?.mp hx
  exact ((load_eq_ok.mp hload).1 i x hi).1

/-- **The live blocks after an event** are there. -/
theorem Loaded.snapshot (h : Loaded t) {f : ℕ} (hf : f < t.events.length) :
    ∃ snapshot, t.validRegions[f]? = some snapshot := by
  obtain ⟨p, hload, -⟩ := h.exists_load
  obtain ⟨-, m, -, -, rfl⟩ := load_mapped hload
  have hlength : f < p.events.length := by simpa using hf
  exact ⟨_, snapshots_getElem? hlength⟩

end Facts

end PerVERT
