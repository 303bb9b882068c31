import PerVERT.Backend.Loaded
import PerVERT.Backend.RoundTrip
import PerVERT.Backend.ContextViews
import PerVERT.Pintool.RecordedAddresses

/-!
# From a run of the tool to the views of the server

The tool prints what it records, `Fini` closes the file, and the server builds a trace from it and
from the line file of the program.  Here the stages are put together: what a view shows is said in
terms of the tool's own state.

* **`construct_recorded_iff`** — when the constructor completes on what the tool wrote.
* `Recorder.memStatus` — the memory view of the tool: the locations it holds active, the accesses
  it printed last, and its own test of each of their addresses.
* **`memStatus_shows_recorder`** — at every moment of the run, that is what the server answers for
  the last frame printed by then.
-/

namespace PerVERT

/-! ## The files of a run -/

/-- With enough rounds the constructor returns the trace. -/
def Constructs (junk : Junk) (location : Location) (lines trace : Text) (t : Trace) : Prop :=
  ∃ n, ∀ fuel, n ≤ fuel → Trace.construct fuel junk location (some lines) (some trace) 1024 = .ok t

/-- The callback writes over an active location. -/
def Recorder.Overwrites (r : Recorder) : Callback → Prop
  | .mallocResult _ addr _ => addr ∈ r.records
  | _ => False

instance (r : Recorder) : ∀ c : Callback, Decidable (r.Overwrites c)
  | .mallocResult _ addr _ => inferInstanceAs (Decidable (addr ∈ r.records))
  | .memRead _ _ _ | .memWrite _ _ _ | .malloc _ | .free _ _ _ => inferInstanceAs (Decidable False)

/-- No `malloc` returns the begin of a location still active. -/
def NoOverwrites (cs : List Callback) : Prop :=
  EachStep (fun before c => ¬ (Recorder.run before).Overwrites c) cs

instance (cs : List Callback) : Decidable (NoOverwrites cs) :=
  inferInstanceAs (Decidable (EachStep _ cs))

/-- Of the addresses of a record in front of the outermost one, none adds a frame, or one lies in
a known row. -/
def Record.StackKnown (rows : List Location) (r : Record) : Prop :=
  (∀ a ∈ r.ips.dropLast, ¬ Framed (lineTable rows) a) ∨
    ∃ a ∈ r.ips.dropLast, Known (lineTable rows) a

section Files

variable {sym : Symbols} {records : List Record} {events : List Event} {cs : List Callback}

lemma readsAddresses_stackText {r : Record} (hips : r.IpsKnown) :
    ReadsAddresses (stackText sym r) r.ips.dropLast := by
  rw [stackText_eq_hexWords sym hips]
  exact readsAddresses_hexWords (List.cons_ne_nil _ _)

lemma resolvable_stackText_iff {rows : List Location} {r : Record} (hips : r.IpsKnown) :
    Resolvable rows (stackText sym r) ↔ r.StackKnown rows := by
  have hreads := @readsAddresses_stackText sym r hips
  constructor
  · exact fun h => h.2 _ hreads
  · refine fun h => ⟨⟨_, hreads⟩, fun as has => ?_⟩
    rw [has.unique hreads]
    exact h

/-- The events of the printed records say what the records say. -/
lemma matchTrace_of_tells
    (h : List.Forall₂ (fun xk e => xk.1.Tells xk.2 e) (records.map (Record.entry sym)).zipIdx
      events) : MatchTrace records events := by
  rw [List.zipIdx_map, List.forall₂_map_left_iff] at h
  rw [MatchTrace, List.forall₂_iff_get]
  refine ⟨by simpa using h.length_eq, fun k hk hk' => ?_⟩
  have hbody := ((List.forall₂_iff_get.mp h).2 k (by simpa using hk) hk').body
  simpa [Record.entry] using hbody

/-- The event of a record tells it. -/
lemma Entry.tells_event (x : Entry) (k : ℕ) : x.Tells k (x.event k) := by
  obtain ⟨body, context⟩ := x
  cases body with
  | M addr endAddr => exact ⟨⟨rfl, rfl, rfl⟩, rfl, rfl⟩
  | F addr | R addr | W addr => exact ⟨⟨rfl, rfl⟩, rfl, rfl⟩

lemma matchTrace_entryEvents (sym : Symbols) (records : List Record) :
    MatchTrace records (entryEvents (records.map (Record.entry sym))) := by
  refine @matchTrace_of_tells sym _ _ ?_
  rw [entryEvents, List.forall₂_map_right_iff, List.forall₂_same]
  exact fun xk _ => xk.1.tells_event xk.2

/-- **The index and the overwrites.**  The index accepts the events of exactly those runs in which
the tool never overwrites an active location. -/
lemma accepted_iff_noOverwrites : ∀ {events : List Event},
    MatchTrace (Recorder.run cs).trace events → (Accepted events ↔ NoOverwrites cs) := by
  induction cs using List.reverseRecOn with
  | nil =>
      intro events hmatch
      obtain rfl : events = [] := List.forall₂_nil_left_iff.mp hmatch
      exact ⟨fun _ => EachStep.nil, fun _ i e he => by simp at he⟩
  | append_singleton cs c ih =>
      intro events hmatch
      rw [NoOverwrites, eachStep_append, ← NoOverwrites]
      rw [Recorder.run_append] at hmatch
      cases c with
      | mallocResult ip addr stack =>
          obtain ⟨events, e, rfl, hmatch, he⟩ := matchTrace_append hmatch
          rw [accepted_append, ih hmatch]
          refine and_congr_right fun hcs => ?_
          have hlive := @mem_live_iff cs events hmatch ((ih hmatch).mpr hcs)
          rw [AcceptedEvent, he.1, he.2.1]
          simp [hlive, Recorder.Overwrites]
      | malloc size =>
          rw [ih hmatch]
          simp [Recorder.Overwrites]
      | memRead ip addr stack | memWrite ip addr stack =>
          simp only [Recorder.step, Recorder.recordMemRead, Recorder.recordMemWrite,
            Recorder.recordAccess] at hmatch
          split_ifs at hmatch
          · obtain ⟨events, e, rfl, hmatch, he⟩ := matchTrace_append hmatch
            rw [accepted_append, ih hmatch, AcceptedEvent, he.1]
            simp [Recorder.Overwrites]
          · rw [ih hmatch]
            simp [Recorder.Overwrites]
      | free ip addr stack =>
          simp only [Recorder.step, Recorder.recordFree] at hmatch
          split_ifs at hmatch
          · obtain ⟨events, e, rfl, hmatch, he⟩ := matchTrace_append hmatch
            rw [accepted_append, ih hmatch, AcceptedEvent, he.1]
            simp [Recorder.Overwrites]
          · rw [ih hmatch]
            simp [Recorder.Overwrites]

/-- The block of an M record. -/
def RecordBody.block : RecordBody → Option (UInt64 × UInt64)
  | .M addr endAddr => some (addr, endAddr)
  | .F _ | .R _ | .W _ => none

/-- The blocks of all the M records. -/
def recordedBlocks (records : List Record) : List (UInt64 × UInt64) :=
  records.filterMap fun r => r.body.block

lemma mallocsOf_eq_recordedBlocks (h : MatchTrace records events) :
    mallocsOf events = recordedBlocks records := by
  induction h with
  | nil => rfl
  | @cons r e records events he _ ih =>
      simp only [mallocsOf, recordedBlocks] at ih ⊢
      cases hbody : r.body with
      | M addr endAddr =>
          rw [hbody] at he
          obtain ⟨htype, h₁, h₂⟩ := he
          rw [List.filter_cons_of_pos (by simpa using htype), List.map_cons, ih,
            List.filterMap_cons, hbody, h₁, h₂]
          rfl
      | F addr | R addr | W addr =>
          rw [hbody] at he
          rw [List.filter_cons_of_neg (by simp [he.1]), ih, List.filterMap_cons, hbody]
          rfl

/-- A block is recorded just if some `malloc` has returned. -/
lemma recordedBlocks_ne_nil_iff : recordedBlocks (Recorder.run cs).trace ≠ [] ↔
    ∃ ip addr stack, Callback.mallocResult ip addr stack ∈ cs := by
  induction cs using List.reverseRecOn with
  | nil => simp [recordedBlocks, Recorder.run, Recorder.init]
  | append_singleton cs c ih =>
      rw [Recorder.run_append]
      cases c with
      | mallocResult ip addr stack =>
          simp only [Recorder.step, Recorder.recordMallocResult, Recorder.print, recordedBlocks,
            List.filterMap_append]
          exact ⟨fun _ => ⟨ip, addr, stack, by simp⟩, fun _ => by simp [RecordBody.block]⟩
      | malloc size => simpa [Recorder.step, Recorder.recordMalloc] using ih
      | memRead ip addr stack | memWrite ip addr stack =>
          simp only [Recorder.step, Recorder.recordMemRead, Recorder.recordMemWrite,
            Recorder.recordAccess]
          split_ifs
          · simpa [recordedBlocks, Recorder.print, RecordBody.block] using ih
          · simpa using ih
      | free ip addr stack =>
          simp only [Recorder.step, Recorder.recordFree]
          split_ifs
          · simpa [recordedBlocks, Recorder.print, RecordBody.block] using ih
          · simpa using ih

/-- The events of a run can be loaded just if there is a block and none was overwritten. -/
lemma loadable_recorded_iff (hfit : ResultsFit cs) (hlen : (Recorder.run cs).trace.length < 2 ^ 31)
    (hmatch : MatchTrace (Recorder.run cs).trace events) : Loadable events ↔
      (∃ ip addr stack, Callback.mallocResult ip addr stack ∈ cs) ∧ NoOverwrites cs := by
  have hblocks := mallocsOf_eq_recordedBlocks hmatch
  have hrec := recorded_run hfit hmatch
  constructor
  · intro h
    have hne := h.nonempty
    rw [hblocks] at hne
    exact ⟨recordedBlocks_ne_nil_iff.mp hne, (accepted_iff_noOverwrites hmatch).mp h.accepted⟩
  · rintro ⟨hsome, hno⟩
    refine ⟨(accepted_iff_noOverwrites hmatch).mpr hno, ?_, countersFit_of_length ?_, ?_⟩
    · rw [hblocks]
      exact recordedBlocks_ne_nil_iff.mpr hsome
    · rw [hblocks]
      exact lt_of_le_of_lt (List.length_filterMap_le _ _) hlen
    · exact fun e he => (spanned_iff_covered hrec.wellFormed _).mpr (hrec.inside e he).1

/-- Two files that can be constructed from are. -/
lemma constructs_of_constructible {location : Location} {lines trace : Text} {es : List Entry}
    (junk : Junk) (h : Constructible location lines trace es 1024) :
    ∃ t, Constructs junk location lines trace t := by
  obtain ⟨n, t, hrun, -⟩ := @construct_of_constructible junk _ _ _ _ _ h
  exact ⟨t, n, hrun⟩

/-- What the stages need of the files of a run. -/
lemma constructible_recorded_iff {location : Location} {lines : Text} (hfit : ResultsFit cs)
    (hips : ∀ r ∈ (Recorder.run cs).trace, r.IpsKnown)
    (hlen : (Recorder.run cs).trace.length < 2 ^ 31) :
    Constructible location lines (traceText sym (Recorder.run cs).trace)
        ((Recorder.run cs).trace.map (Record.entry sym)) 1024 ↔
      HeaderFits lines ∧ (∃ ip addr stack, Callback.mallocResult ip addr stack ∈ cs) ∧
        NoOverwrites cs ∧
        ∀ r ∈ (Recorder.run cs).trace, r.StackKnown (lineRows location lines) := by
  have hloadable := loadable_recorded_iff hfit hlen
    (matchTrace_entryEvents sym (Recorder.run cs).trace)
  constructor
  · intro h
    obtain ⟨hsome, hno⟩ := hloadable.mp h.loadable
    refine ⟨h.header, hsome, hno, fun r hr => ?_⟩
    exact (resolvable_stackText_iff (hips r hr)).mp (h.resolvable _ (List.mem_map_of_mem hr))
  · rintro ⟨hheader, hsome, hno, hstacks⟩
    refine ⟨hheader, traceFile_traceText hips, fun x hx => ?_, by decide,
      hloadable.mpr ⟨hsome, hno⟩⟩
    obtain ⟨r, hr, rfl⟩ := List.mem_map.mp hx
    exact (resolvable_stackText_iff (hips r hr)).mpr (hstacks r hr)

/-- **When a recorded run can be loaded.**  For every run of the tool in which no block goes past
the last address, and every line file: what decides are the header of the line file, that there is
a block at all, that no active location is overwritten, and the rows the stacks resolve to. -/
theorem construct_recorded_iff (sym : Symbols) (junk : Junk) (location : Location) (lines : Text)
    (cs : List Callback) (hfit : ResultsFit cs)
    (hips : ∀ r ∈ (Recorder.run cs).trace, r.IpsKnown)
    (hlen : (Recorder.run cs).trace.length < 2 ^ 31) :
    ConstructorCompletes junk location (some lines)
        (some (traceText sym (Recorder.run cs).trace)) 1024 ↔
      HeaderFits lines ∧ (∃ ip addr stack, Callback.mallocResult ip addr stack ∈ cs) ∧
        NoOverwrites cs ∧
        ∀ r ∈ (Recorder.run cs).trace, r.StackKnown (lineRows location lines) := by
  rw [← @constructible_recorded_iff sym cs location lines hfit hips hlen]
  exact ⟨constructible_of_construct (traceFile_traceText hips), construct_of_constructible⟩

end Files

/-- A block, a read of it one call deeper, and its end. -/
def sampleRun : List Callback :=
  [.malloc 16, .mallocResult 0x10 0x1010 [⟨0, 0x9, 0x7fff1000, 0x400⟩],
    .memRead 0x12 0x1018 [⟨1, 0x11, 0x7fff0ff0, 0x500⟩, ⟨0, 0x9, 0x7fff1000, 0x400⟩],
    .memWrite 0x13 0x1020 [], .free 0x14 0x1010 []]

/-- No routine has a name. -/
def noSymbols : Symbols := ⟨fun _ => [], fun _ => []⟩

lemma goodLines_known {a : UInt64} (ha : 0x8 ≤ a ∧ a < 0x20) :
    Known (lineTable (lineRows ⟨[], 0, 0⟩ goodLines)) a := by
  rw [goodLines_rows]
  refine ⟨1, _, ⟨⟨le_refl 1, by decide, _, _, rfl, rfl, ha.1, ha.2⟩, fun k hk hb => ?_⟩, rfl,
    by decide⟩
  have := hb.1
  omega

lemma stackKnown_goodLines {r : Record}
    (h : r.ips.dropLast = [] ∨ ∃ a ∈ r.ips.dropLast, 0x8 ≤ a ∧ a < 0x20) :
    r.StackKnown (lineRows ⟨[], 0, 0⟩ goodLines) := by
  rcases h with hnil | ⟨a, ha, hrow⟩
  · exact Or.inl (by simp [hnil])
  · exact Or.inr ⟨a, ha, goodLines_known hrow⟩

lemma sampleRun_known : ∀ r ∈ (Recorder.run sampleRun).trace,
    r.StackKnown (lineRows ⟨[], 0, 0⟩ goodLines) := by
  have hips : ∀ r ∈ (Recorder.run sampleRun).trace,
      r.ips.dropLast = [] ∨ ∃ a ∈ r.ips.dropLast, 0x8 ≤ a ∧ a < 0x20 := by decide
  exact fun r hr => stackKnown_goodLines (hips r hr)

lemma sampleRun_constructs : ∃ t, Constructs ⟨'?', 0⟩ ⟨[], 0, 0⟩ goodLines
    (traceText noSymbols (Recorder.run sampleRun).trace) t := by
  exact constructs_of_constructible _
    ((constructible_recorded_iff (by decide) (by decide) (by decide)).mpr
      ⟨goodTrace_constructible.header, ⟨0x10, 0x1010, _, .tail _ (.head _)⟩, by decide,
        sampleRun_known⟩)

theorem sampleRun_completes :
    ConstructorCompletes ⟨'?', 0⟩ ⟨[], 0, 0⟩ (some goodLines)
      (some (traceText noSymbols (Recorder.run sampleRun).trace)) 1024 :=
  (construct_recorded_iff noSymbols ⟨'?', 0⟩ ⟨[], 0, 0⟩ goodLines sampleRun (by decide) (by decide)
    (by decide)).mpr ⟨goodTrace_constructible.header, ⟨0x10, 0x1010, _, .tail _ (.head _)⟩,
      by decide, sampleRun_known⟩

/-! ## The memory view -/

/-- The record is one of an access. -/
def RecordBody.isAccess : RecordBody → Bool
  | .R _ | .W _ => true
  | .M _ _ | .F _ => false

/-- The first address of a record. -/
def RecordBody.addr : RecordBody → UInt64
  | .M addr _ | .F addr | .R addr | .W addr => addr

/-- `"r"` for a read, `"w"` for a write. -/
def RecordBody.accessText : RecordBody → Text
  | .R _ => ['r']
  | .M _ _ | .F _ | .W _ => ['w']

/-- The memory view of the tool's own state: the locations it holds active, and the accesses it has
printed last, newest first, each with what its test of the address says now. -/
def Recorder.memStatus (place : UInt64 → ℤ) (window : ℕ) (r : Recorder) : MemStatus :=
  let shown := (((r.trace.map Record.body).filter RecordBody.isAccess).reverse).take window
  { regions := r.records.toList.map fun block => (place block.1, place block.2)
    events := shown.map RecordBody.accessText
    addr := shown.map fun body => place body.addr
    mask := shown.map fun body => r.active body.addr }

/-- The number that stands for an address in the views of a run. -/
noncomputable def sentPlace (cs : List Callback) (a : UInt64) : ℤ :=
  toInt (mappedAddress 1024 (recordedBlocks (Recorder.run cs).trace) a)

section View

variable {sym : Symbols} {junk : Junk} {location : Location} {lines : Text} {t : Trace}
  {cs before : List Callback} {events : List Event}

/-- A constructor that could open both files leaves the trace okay. -/
lemma construct_okay {fuel : ℕ} {trace : Text} {cacheLine : UInt64}
    (h : Trace.construct fuel junk location (some lines) (some trace) cacheLine = .ok t) :
    t.okay = true := by
  obtain ⟨p₁, hp₁, h⟩ := checked_bind_eq_ok.mp h
  obtain ⟨p₂, hp₂, hload⟩ := checked_bind_eq_ok.mp h
  rw [okayAnd_of_okay rfl] at hp₁
  obtain ⟨⟨b, p₀⟩, hline, hp₁⟩ := checked_bind_eq_ok.mp hp₁
  cases hp₁
  have hb : b = true := by
    simp only [parseLineFile] at hline
    split_ifs at hline
    · cases hline
      rfl
    · obtain ⟨file, -, hline⟩ := checked_bind_eq_ok.mp hline
      obtain ⟨st, -, hline⟩ := checked_bind_eq_ok.mp hline
      cases hline
      rfl
  rw [okayAnd_of_okay hb] at hp₂
  obtain ⟨⟨b', p₃⟩, htrace, hp₂⟩ := checked_bind_eq_ok.mp hp₂
  obtain ⟨p₄, -, htrace⟩ := checked_bind_eq_ok.mp htrace
  cases htrace
  cases hp₂
  exact load_okay hload

/-- **The stages of a run that was constructed.** -/
lemma exists_load_of_constructs (hips : ∀ r ∈ (Recorder.run cs).trace, r.IpsKnown)
    (h : Constructs junk location lines (traceText sym (Recorder.run cs).trace) t) :
    ∃ p, Trace.load p 1024 = .ok t ∧ p.locations = lineTable (lineRows location lines) ∧
      List.Forall₂ (fun xk e => xk.1.Tells xk.2 e)
        ((Recorder.run cs).trace.map (Record.entry sym)).zipIdx p.events := by
  obtain ⟨n, hrun⟩ := h
  have hfile := @traceFile_traceText sym _ hips
  have hc := constructible_of_construct hfile
    ⟨n, t, hrun, by simp [construct_okay (hrun n (le_refl n))]⟩
  obtain ⟨n₁, hline⟩ := parseLineFile_eq location lines
  obtain ⟨n₂, p, hread, htold, hlocs, hp, -⟩ := @parseTraceFile_file junk _ _ hfile
    (afterLines (lineRows location lines)) rfl fun x hx =>
      resolveContext_returns_iff.mpr (hc.resolvable x hx)
  have hreturn := hrun (max n (max n₁ n₂)) (le_max_left _ _)
  rw [construct_lines ((hline _ (le_trans (le_max_left n₁ n₂) (le_max_right n _))).1 hc.header),
    okayAnd_of_okay rfl, hread _ (le_trans (le_max_right n₁ n₂) (le_max_right n _))] at hreturn
  exact ⟨_, hreturn, hlocs, htold⟩

lemma map_eq_map_of_forall₂ {α β γ : Type} {R : α → β → Prop} {f : α → γ} {g : β → γ}
    (hfg : ∀ a b, R a b → f a = g b) {as : List α} {bs : List β} (h : List.Forall₂ R as bs) :
    as.map f = bs.map g := by
  induction h with
  | nil => rfl
  | cons hab _ ih => rw [List.map_cons, List.map_cons, hfg _ _ hab, ih]

/-- What was printed up to a moment are the first events. -/
lemma matchTrace_prefix (hmatch : MatchTrace (Recorder.run cs).trace events)
    (hbefore : before <+: cs) :
    MatchTrace (Recorder.run before).trace (events.take (Recorder.run before).trace.length) := by
  rw [List.prefix_iff_eq_take] at hbefore
  have htake := List.prefix_iff_eq_take.mp (trace_of_take cs before.length)
  rw [← hbefore] at htake
  have h := List.forall₂_take (Recorder.run before).trace.length hmatch
  rwa [← htake] at h

/-- The accesses shown are those printed last. -/
lemma shownAccesses_match {k w : ℕ}
    (hmatch : MatchTrace (Recorder.run before).trace (events.take (k + 1))) :
    List.Forall₂ (fun (body : RecordBody) e => body.isAccess = true ∧ body.Matches e)
      (((((Recorder.run before).trace.map Record.body).filter RecordBody.isAccess).reverse).take w)
      (shownAccesses events k w) := by
  have hbodies : List.Forall₂ (fun (body : RecordBody) (e : Event) => body.Matches e)
      ((Recorder.run before).trace.map Record.body) (events.take (k + 1)) :=
    List.forall₂_map_left_iff.mpr hmatch
  have hkind : ∀ (body : RecordBody) (e : Event), body.Matches e →
      (body.isAccess = true ↔ e.isAccess = true) := by
    intro body e h
    cases body <;> simp [RecordBody.isAccess, Event.isAccess, h.1]
  have hfilter := List.rel_filter (R := fun (body : RecordBody) (e : Event) => body.Matches e)
    (fun body e h => hkind body e h) hbodies
  refine (List.forall₂_and_left _ _).mpr
    ⟨fun body hbody => ?_, List.forall₂_take w (List.forall₂_reverse_iff.mpr hfilter)⟩
  exact (List.mem_filter.mp (List.mem_reverse.mp (List.mem_of_mem_take hbody))).2

lemma accessLetter_match {body : RecordBody} {e : Event} (haccess : body.isAccess = true)
    (h : body.Matches e) : body.accessText = accessLetter e ∧ body.addr = e.arg1 := by
  cases body with
  | M addr endAddr | F addr => cases haccess
  | R addr | W addr => simp [RecordBody.accessText, accessLetter, RecordBody.addr, h.1, h.2]

/-- The tool's own test of an address is the test against the blocks live at the frame. -/
lemma active_iff_inLiveBlock {k : ℕ} (hacc : Accepted events)
    (hmatch : MatchTrace (Recorder.run before).trace (events.take (k + 1))) (a : UInt64) :
    (Recorder.run before).active a = true ↔ InLiveBlock events k a := by
  have hlive := records_eq_live hmatch (hacc.take (k + 1))
  rw [active_iff, InBlock, InLiveBlock]
  constructor
  · rintro ⟨block, hblock, hle, hlt⟩
    obtain ⟨i, e, he, h₁, h₂⟩ := (hlive block.1 block.2).mp ((mem_toList_iff _ _).mp hblock)
    exact ⟨i, e, he, by rwa [h₁], by rwa [h₂]⟩
  · rintro ⟨i, e, he, hle, hlt⟩
    refine ⟨(e.arg1, e.arg2), (mem_toList_iff _ _).mpr ?_, hle, hlt⟩
    exact (hlive e.arg1 e.arg2).mpr ⟨i, e, he, rfl, rfl⟩

/-- The answer over the placed events of a moment. -/
lemma memStatus_of_placed {g : Event → Event} (hg : ∀ e ∈ events, Placed events g e)
    (hacc : Accepted events) {k w : ℕ} {place : UInt64 → ℤ}
    (hplace : ∀ a, place a = toInt (viewAddress events a))
    (hmatch : MatchTrace (Recorder.run before).trace (events.take (k + 1))) :
    MemStatus.mk
        (((blocksAfter events (k + 1)).map g).map fun r => (toInt r.arg1.toNat, toInt r.arg2.toNat))
        (((shownAccesses events k w).map g).map accessLetter)
        (((shownAccesses events k w).map g).map fun e => toInt e.arg1.toNat)
        (((shownAccesses events k w).map g).map (validIn ((blocksAfter events (k + 1)).map g)))
      = (Recorder.run before).memStatus place w := by
  have hshown := @shownAccesses_match before events k w hmatch
  have hmem : ∀ e ∈ shownAccesses events k w, e ∈ events := fun e => mem_of_mem_shownAccesses
  have hpair := (List.forall₂_and_left _ _).mpr ⟨hmem, hshown.flip⟩
  rw [Recorder.memStatus, MemStatus.mk.injEq]
  simp only [List.map_map]
  refine ⟨?_, ?_, ?_, ?_⟩
  · rw [← List.map_map, (regions_of_placed hg hacc k).1, ← blocks_eq_records hmatch hacc,
      List.map_map]
    simp only [Function.comp_def, hplace]
  · refine map_eq_map_of_forall₂ (fun e body h => ?_) hpair
    rw [Function.comp_apply, (accessLetter_match h.2.1 h.2.2).1, accessLetter, accessLetter,
      (hg e h.1).type_eq]
  · refine map_eq_map_of_forall₂ (fun e body h => ?_) hpair
    rw [Function.comp_apply, (accessLetter_match h.2.1 h.2.2).2, (hg e h.1).arg1_eq, hplace]
  · refine map_eq_map_of_forall₂ (fun e body h => ?_) hpair
    rw [Function.comp_apply, (accessLetter_match h.2.1 h.2.2).2, Bool.eq_iff_iff,
      valid_iff hg hacc k h.1, active_iff_inLiveBlock hacc hmatch]

/-- **The memory view shows the tool.**  The trace is constructed from the whole run.  At every
moment of that run, the answer for the last frame printed by then is the tool's own state at that
moment: its map, its last accesses and its own test of their addresses. -/
theorem memStatus_shows_recorder (hfit : ResultsFit cs)
    (hips : ∀ r ∈ (Recorder.run cs).trace, r.IpsKnown)
    (h : Constructs junk location lines (traceText sym (Recorder.run cs).trace) t)
    (hbefore : before <+: cs) {k : ℕ} (hk : (Recorder.run before).trace.length = k + 1)
    (window : ℤ) :
    f_mem_status t k window
      = .ok (some ((Recorder.run before).memStatus (sentPlace cs) (toUnsigned window))) := by
  obtain ⟨p, hload, -, htold⟩ := exists_load_of_constructs hips h
  have hmatch := matchTrace_of_tells htold
  have hprefix := matchTrace_prefix hmatch hbefore
  rw [hk] at hprefix
  obtain ⟨hacc, m, hm, himage, rfl⟩ := load_mapped hload
  have hwf := (recorded_run hfit hmatch).wellFormed
  have hg : ∀ e ∈ p.events, Placed p.events (mapEvent m) e :=
    fun e he => placed_of_remapEvent hwf hm (himage e he)
  have hlt : k < p.events.length := by
    have hlen := hprefix.length_eq
    rw [hk, List.length_take] at hlen
    omega
  have hplace : ∀ a, sentPlace cs a = toInt (viewAddress p.events a) := by
    intro a
    rw [sentPlace, viewAddress, mallocsOf_eq_recordedBlocks hmatch]
  rw [f_mem_status_eq (by simpa using hlt) (snapshots_getElem? hlt) window]
  simp only [shownAccesses_map hg, pointees_map]
  rw [← memStatus_of_placed hg hacc hplace hprefix]
  rfl

end View

/-- While its block is live: one region, and the read in it. -/
theorem sampleRun_memStatus : ∃ t, Constructs ⟨'?', 0⟩ ⟨[], 0, 0⟩ goodLines
      (traceText noSymbols (Recorder.run sampleRun).trace) t ∧
    f_mem_status t (1 : ℕ) 5
      = .ok (some ((Recorder.run (sampleRun.take 3)).memStatus (sentPlace sampleRun) 5)) := by
  obtain ⟨t, ht⟩ := sampleRun_constructs
  exact ⟨t, ht, memStatus_shows_recorder (by decide) (by decide) ht (List.take_prefix 3 _)
    (by decide) 5⟩

end PerVERT
