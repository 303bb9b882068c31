import PerVERT.Backend.Index
import PerVERT.Backend.TraceFile

/-!
# `Trace::Trace`

The constructor runs the line parser, the trace parser unless the first one failed, and then
indexing and remapping, whatever the parsers returned.

* `okayAnd`, `Trace.construct` — as the code runs it.
* `lineRows`, `HeaderFits` — what the line parser makes of any text, and when it does not throw;
  **`parseLineFile_eq`**.
* `Entry.event`, `entryEvents` — the events of a complete trace text.
* `loadable_congr` — whether events can be loaded depends on what they tell only.
* **`construct_completes_iff`** — when the constructor completes.
-/

namespace PerVERT

/-! ## The constructor -/

/-- `okay_ = okay_ && parse(file)`. -/
def okayAnd (parse : Parsed → Checked (Bool × Parsed)) (p : Parsed) : Checked Parsed :=
  if p.okay then do
    let (okay, p) ← parse p
    pure { p with okay }
  else pure p

lemma okayAnd_of_okay {parse : Parsed → Checked (Bool × Parsed)} {p : Parsed}
    (h : p.okay = true) :
    okayAnd parse p = parse p >>= fun r => pure { r.2 with okay := r.1 } := by
  rw [okayAnd, if_pos h]

/-- `Trace::Trace`. -/
def Trace.construct (fuel : ℕ) (junk : Junk) (location : Location)
    (linefile tracefile : Option Text) (cacheLine : UInt64) : Checked Trace := do
  let p ← okayAnd (parseLineFile fuel location linefile) Parsed.empty
  let p ← okayAnd (parseTraceFile fuel junk tracefile) p
  Trace.load p cacheLine

/-! ## Any line file -/

/-- The rows that the line parser makes of a text. -/
def lineRows (location : Location) (text : Text) : List Location :=
  match completeLines text with
  | _ :: _ :: _ :: _ :: _ :: header :: _ :: lines =>
      match substr header 4 (positionSub (rfind header ':') 4) with
      | .ok file => (lines.foldl parseLine ⟨file, location, []⟩).locations
      | .error _ => []
  | _ => []

/-- The sixth line of the text, which the parser cuts a file name from, is long enough for that. -/
def HeaderFits (text : Text) : Prop :=
  7 ≤ (completeLines text).length → ∀ header, (completeLines text)[5]? = some header →
    4 ≤ header.length

section Lines

variable {location : Location} {text : Text}

/-- Rows go behind the locations there are. -/
lemma parseLine_locations (locations : List Location) (st : LineState) (line : Text) :
    parseLine { st with locations := locations ++ st.locations } line
      = { parseLine st line with locations := locations ++ (parseLine st line).locations } := by
  cases line with
  | nil => rfl
  | cons c cs =>
      simp only [parseLine]
      split_ifs
      · rfl
      · rfl
      · simp

lemma foldl_parseLine_locations (locations : List Location) : ∀ (lines : List Text)
    (st : LineState), (lines.foldl parseLine { st with locations := locations ++ st.locations })
      = { lines.foldl parseLine st with
          locations := locations ++ (lines.foldl parseLine st).locations }
  | [], _ => rfl
  | line :: lines, st => by
      rw [List.foldl_cons, List.foldl_cons, parseLine_locations,
        foldl_parseLine_locations locations lines (parseLine st line)]

/-- **The line parser on any text.**  It leaves the rows behind the unknown location, or throws. -/
theorem parseLineFile_eq (location : Location) (text : Text) : ∃ n, ∀ fuel, n ≤ fuel →
    (HeaderFits text → parseLineFile fuel location (some text) Parsed.empty
      = .ok (true, afterLines (lineRows location text))) ∧
    (¬ HeaderFits text → parseLineFile fuel location (some text) Parsed.empty
      = .error .outOfRange) := by
  obtain ⟨htext, hlines, hlast⟩ := unlines_completeLines text
  match hcomplete : completeLines text with
  | l₁ :: l₂ :: l₃ :: l₄ :: l₅ :: header :: l₇ :: lines =>
      rw [hcomplete] at htext hlines
      refine ⟨lines.length + 1, fun fuel hfuel => ?_⟩
      have hparse := @parseLineFile_lines _ hlast fuel location Parsed.empty _ _ _ _ _ _ _ _
        hlines hfuel
      rw [← htext] at hparse
      have hheader : HeaderFits text ↔ 4 ≤ header.length := by
        simp [HeaderFits, hcomplete]
      rw [hheader, hparse, lineRows, hcomplete]
      refine ⟨fun h => ?_, fun h => ?_⟩
      · simp only [substr, if_neg (Nat.not_lt.mpr h)]
        have hrows := foldl_parseLine_locations [unknownLocation] lines
          ⟨takeUpTo (positionSub (rfind header ':') 4) (header.drop 4), location, []⟩
        simp only [List.append_nil] at hrows
        show Except.ok (true, { Parsed.empty with locations := (lines.foldl parseLine
          ⟨takeUpTo (positionSub (rfind header ':') 4) (header.drop 4), location,
            [unknownLocation]⟩).locations }) = _
        rw [hrows]
        rfl
      · rw [substr, if_pos (Nat.not_le.mp h)]
        rfl
  | [] | [_] | [_, _] | [_, _, _] | [_, _, _, _] | [_, _, _, _, _] | [_, _, _, _, _, _] =>
      have hshort : (completeLines text).length < 7 := by rw [hcomplete]; simp
      have hfits : HeaderFits text := fun h => absurd h (Nat.not_le.mpr hshort)
      refine ⟨0, fun fuel _ => ⟨fun _ => ?_, fun h => absurd hfits h⟩⟩
      rw [parseLineFile_short hshort, lineRows, hcomplete]
      rfl

lemma parseLineFile_events {fuel : ℕ} {file : Option Text} {p p' : Parsed} {b : Bool}
    (h : parseLineFile fuel location file p = .ok (b, p')) : p'.events = p.events := by
  cases file with
  | none =>
      cases h
      rfl
  | some text =>
      simp only [parseLineFile] at h
      split_ifs at h
      · cases h
        rfl
      · obtain ⟨currentfile, -, h⟩ := checked_bind_eq_ok.mp h
        obtain ⟨st, -, h⟩ := checked_bind_eq_ok.mp h
        cases h
        rfl

end Lines

/-! ## The events of a text -/

/-- The event of a record, at position `k`. -/
def Entry.event (x : Entry) (k : ℕ) : Event :=
  match x.body with
  | .M addr endAddr => ⟨UInt32.ofNat k, .MALLOC, addr, endAddr, x.context⟩
  | .F addr => ⟨UInt32.ofNat k, .FREE, addr, 0, x.context⟩
  | .R addr => ⟨UInt32.ofNat k, .READ, addr, 0, x.context⟩
  | .W addr => ⟨UInt32.ofNat k, .WRITE, addr, 0, x.context⟩

/-- The events of all the records. -/
def entryEvents (es : List Entry) : List Event :=
  es.zipIdx.map fun xk => xk.1.event xk.2

/-- The events agree in what a record tells. -/
structure SameRecord (e e' : Event) : Prop where
  type : e.type = e'.type
  arg1 : e.arg1 = e'.arg1
  arg2 : e.type = .MALLOC → e.arg2 = e'.arg2

section Events

variable {events events' : List Event}

/-- An event that tells a record agrees with the record's own. -/
lemma Entry.Tells.same {x : Entry} {k : ℕ} {e : Event} (h : x.Tells k e) :
    SameRecord (x.event k) e := by
  have hbody := h.body
  rw [Entry.event]
  cases hx : x.body with
  | M addr endAddr =>
      rw [hx] at hbody
      exact ⟨hbody.1.symm, hbody.2.1.symm, fun _ => hbody.2.2.symm⟩
  | F addr | R addr | W addr =>
      rw [hx] at hbody
      exact ⟨hbody.1.symm, hbody.2.symm, fun htype => by cases htype⟩

lemma SameRecord.symm {e e' : Event} (h : SameRecord e e') : SameRecord e' e :=
  ⟨h.type.symm, h.arg1.symm, fun htype => (h.arg2 (h.type.trans htype)).symm⟩

lemma mallocsOf_congr (h : List.Forall₂ SameRecord events events') :
    mallocsOf events = mallocsOf events' := by
  induction h with
  | nil => rfl
  | @cons e e' events events' he _ ih =>
      simp only [mallocsOf] at ih ⊢
      by_cases htype : e.type = .MALLOC
      · rw [List.filter_cons_of_pos (by simpa using htype),
          List.filter_cons_of_pos (by simpa using he.type.symm.trans htype), List.map_cons,
          List.map_cons, ih, he.arg1, he.arg2 htype]
      · rw [List.filter_cons_of_neg (by simpa using htype),
          List.filter_cons_of_neg (by simpa [← he.type] using htype), ih]

lemma live_congr : ∀ {events events' : List Event}, List.Forall₂ SameRecord events events' →
    live events = live events' := by
  intro events
  induction events using List.reverseRecOn with
  | nil =>
      intro events' h
      rw [List.forall₂_nil_left_iff.mp h]
  | append_singleton events e ih =>
      intro events' h
      obtain ⟨events', e', rfl, hevents, he⟩ := forall₂_snoc_left.mp h
      rw [live_append, live_append, ih hevents, hevents.length_eq, liveStep, liveStep, he.type,
        he.arg1]

lemma accepted_congr : ∀ {events events' : List Event}, List.Forall₂ SameRecord events events' →
    Accepted events → Accepted events' := by
  intro events
  induction events using List.reverseRecOn with
  | nil =>
      intro events' h hacc
      rw [List.forall₂_nil_left_iff.mp h]
      exact hacc
  | append_singleton events e ih =>
      intro events' h hacc
      obtain ⟨events', e', rfl, hevents, he⟩ := forall₂_snoc_left.mp h
      obtain ⟨hacc, hev⟩ := accepted_append.mp hacc
      rw [AcceptedEvent, he.type, he.arg1, live_congr hevents] at hev
      exact accepted_append.mpr ⟨ih hevents hacc, hev⟩

/-- **Whether events can be loaded** depends on what they tell only. -/
lemma loadable_congr (h : List.Forall₂ SameRecord events events') (hload : Loadable events) :
    Loadable events' := by
  obtain ⟨hacc, hne, hfits, hspanned⟩ := hload
  rw [mallocsOf_congr h] at hne hfits hspanned
  refine ⟨accepted_congr h hacc, hne, hfits, fun e' he' => ?_⟩
  obtain ⟨k, hk, rfl⟩ := List.mem_iff_getElem.mp he'
  have hk' : k < events.length := h.length_eq ▸ hk
  have hsame : SameRecord events[k] events'[k] := (List.forall₂_iff_get.mp h).2 k hk' hk
  rw [← hsame.arg1]
  exact hspanned _ (List.getElem_mem hk')

lemma sameRecord_entryEvents {es : List Entry}
    (h : List.Forall₂ (fun xk e => xk.1.Tells xk.2 e) es.zipIdx events) :
    List.Forall₂ SameRecord (entryEvents es) events := by
  rw [entryEvents, List.forall₂_map_left_iff]
  exact h.imp fun xk e htells => htells.same

/-- Without a MALLOC there is nothing to lay out. -/
lemma not_loadable_nil : ¬ Loadable [] := fun h => h.nonempty rfl

end Events

/-! ## When it completes -/

/-- The constructor returns, and the trace is okay exactly when both files could be opened. -/
def ConstructorCompletes (junk : Junk) (location : Location) (linefile tracefile : Option Text)
    (cacheLine : UInt64) : Prop :=
  ∃ n t, (∀ fuel, n ≤ fuel →
      Trace.construct fuel junk location linefile tracefile cacheLine = .ok t) ∧
    (t.okay = true ↔ linefile.isSome ∧ tracefile.isSome)

/-- What the four stages need of two readable files. -/
structure Constructible (location : Location) (lines trace : Text) (es : List Entry)
    (cacheLine : UInt64) : Prop where
  header : HeaderFits lines
  text : TraceFile trace es
  resolvable : ∀ x ∈ es, Resolvable (lineRows location lines) x.context
  cacheLine : cacheLine ≠ 0
  loadable : Loadable (entryEvents es)

section Complete

variable {junk : Junk} {location : Location} {lines trace : Text} {es : List Entry}
  {cacheLine : UInt64}

/-- The two last stages, once the line file has been read. -/
lemma construct_lines {fuel : ℕ} {rows : List Location} {linefile tracefile : Option Text}
    (h : parseLineFile fuel location linefile Parsed.empty = .ok (true, afterLines rows)) :
    Trace.construct fuel junk location linefile tracefile cacheLine
      = okayAnd (parseTraceFile fuel junk tracefile) (afterLines rows)
        >>= fun p => Trace.load p cacheLine := by
  rw [Trace.construct, okayAnd_of_okay rfl, h]
  rfl

lemma load_ne_ok_of_nil {p : Parsed} {t : Trace} (hp : p.events = []) :
    Trace.load p cacheLine ≠ .ok t := by
  intro h
  have hload := (load_returns_iff.mp ⟨t, h⟩).2
  rw [hp] at hload
  exact not_loadable_nil hload

/-- Nor without both files: there is nothing to begin the layout with. -/
lemma construct_ne_ok {fuel : ℕ} {linefile tracefile : Option Text} {t : Trace}
    (h : linefile = none ∨ tracefile = none) :
    Trace.construct fuel junk location linefile tracefile cacheLine ≠ .ok t := by
  intro hreturn
  obtain ⟨p, hp, hreturn⟩ := checked_bind_eq_ok.mp hreturn
  obtain ⟨p', hp', hload⟩ := checked_bind_eq_ok.mp hreturn
  rw [okayAnd_of_okay rfl] at hp
  obtain ⟨⟨b, p₁⟩, hread, hp⟩ := checked_bind_eq_ok.mp hp
  cases hp
  have hevents : p₁.events = [] := parseLineFile_events hread
  refine load_ne_ok_of_nil ?_ hload
  rcases h with rfl | rfl
  · cases hread
    cases hp'
    rfl
  · rw [okayAnd] at hp'
    split_ifs at hp' <;> cases hp' <;> exact hevents

lemma load_okay {p : Parsed} {t : Trace} (h : Trace.load p cacheLine = .ok t) :
    t.okay = p.okay := by
  obtain ⟨-, m, -, mapped, -, rfl⟩ := load_eq_ok.mp h
  rfl

/-- The stages of two complete files that can be constructed from. -/
lemma construct_of_constructible (h : Constructible location lines trace es cacheLine) :
    ConstructorCompletes junk location (some lines) (some trace) cacheLine := by
  obtain ⟨n₁, hline⟩ := parseLineFile_eq location lines
  obtain ⟨n₂, p, hread, htold, -, hokay, -⟩ := @parseTraceFile_file junk trace es h.text
    (afterLines (lineRows location lines)) rfl fun x hx =>
      resolveContext_returns_iff.mpr (h.resolvable x hx)
  obtain ⟨t, ht⟩ := (@load_returns_iff p cacheLine).mpr
    ⟨h.cacheLine, loadable_congr (sameRecord_entryEvents htold) h.loadable⟩
  have hokay' : p.okay = true := hokay
  refine ⟨max n₁ n₂, t, fun fuel hfuel => ?_, ?_⟩
  · rw [construct_lines ((hline fuel (le_trans (le_max_left _ _) hfuel)).1 h.header),
      okayAnd_of_okay rfl, hread fuel (le_trans (le_max_right _ _) hfuel)]
    show Trace.load { p with okay := true } cacheLine = .ok t
    rw [← ht, ← hokay']
  · rw [load_okay ht, hokay']
    simp

/-- What a constructor that returned has read. -/
lemma constructible_of_construct (hes : TraceFile trace es)
    (h : ConstructorCompletes junk location (some lines) (some trace) cacheLine) :
    Constructible location lines trace es cacheLine := by
  obtain ⟨n, t, hrun, -⟩ := h
  obtain ⟨n₁, hline⟩ := parseLineFile_eq location lines
  by_cases hheader : HeaderFits lines
  · have hstages : ∀ fuel, max n n₁ ≤ fuel → ∃ b p,
        parseTraceFile fuel junk (some trace) (afterLines (lineRows location lines)) = .ok (b, p) ∧
          Trace.load { p with okay := b } cacheLine = .ok t := by
      intro fuel hfuel
      have hreturn := hrun fuel (le_trans (le_max_left _ _) hfuel)
      rw [construct_lines ((hline fuel (le_trans (le_max_right _ _) hfuel)).1 hheader)] at hreturn
      obtain ⟨p', hp', hload⟩ := checked_bind_eq_ok.mp hreturn
      rw [okayAnd_of_okay rfl] at hp'
      obtain ⟨⟨b, p⟩, hread, hp'⟩ := checked_bind_eq_ok.mp hp'
      cases hp'
      exact ⟨b, p, hread, hload⟩
    have hresolve : ∀ x ∈ es, Resolvable (lineRows location lines) x.context := by
      obtain ⟨b, p, hread, -⟩ := hstages (max n n₁) (le_refl _)
      obtain ⟨p', hloop, -⟩ := checked_bind_eq_ok.mp hread
      exact resolvable_of_parseTraceLoop hes rfl (fun c hc => by cases hc) hloop
    obtain ⟨n₂, p', hread', htold, -⟩ := @parseTraceFile_file junk trace es hes
      (afterLines (lineRows location lines)) rfl fun x hx =>
        resolveContext_returns_iff.mpr (hresolve x hx)
    obtain ⟨b, p, hread, hload⟩ := hstages (max (max n n₁) n₂) (le_max_left _ _)
    rw [hread' _ (le_max_right _ _)] at hread
    cases hread
    obtain ⟨hcache, hloadable⟩ := load_returns_iff.mp ⟨t, hload⟩
    have hsame := (sameRecord_entryEvents htold).flip.imp fun _ _ h => h.symm
    exact ⟨hheader, hes, hresolve, hcache, loadable_congr hsame hloadable⟩
  · have hreturn := hrun (max n n₁) (le_max_left _ _)
    rw [Trace.construct, okayAnd_of_okay rfl, (hline _ (le_max_right _ _)).2 hheader] at hreturn
    cases hreturn

/-- **When the constructor completes.**  The trace file is complete, if there is one.  Both files
have to be readable, the sixth line of the line file long enough, every stack text resolvable, and
the events such that no assertion fires, with a MALLOC among them. -/
theorem construct_completes_iff (junk : Junk) (location : Location)
    (linefile tracefile : Option Text) (cacheLine : UInt64)
    (htrace : ∀ text, tracefile = some text → ∃ es, TraceFile text es) :
    ConstructorCompletes junk location linefile tracefile cacheLine ↔
      ∃ lines trace es, linefile = some lines ∧ tracefile = some trace ∧
        Constructible location lines trace es cacheLine := by
  constructor
  · intro h
    have hreturns : ∃ fuel t,
        Trace.construct fuel junk location linefile tracefile cacheLine = .ok t := by
      obtain ⟨n, t, hrun, -⟩ := h
      exact ⟨n, t, hrun n (le_refl n)⟩
    obtain ⟨fuel, t, hreturn⟩ := hreturns
    cases linefile with
    | none => exact absurd hreturn (construct_ne_ok (Or.inl rfl))
    | some lines =>
        cases tracefile with
        | none => exact absurd hreturn (construct_ne_ok (Or.inr rfl))
        | some trace =>
            obtain ⟨es, hes⟩ := htrace trace rfl
            exact ⟨lines, trace, es, rfl, rfl, constructible_of_construct hes h⟩
  · rintro ⟨lines, trace, es, rfl, rfl, h⟩
    exact construct_of_constructible h

end Complete

/-- Two rows of one file. -/
def goodLines : Text :=
  "\n\n\n\n\nCU: a.c:\nFile name  Line number  Starting address\na.c 1 0x8\na.c 2 0x20\n".toList

/-- A block that is written and freed. -/
def goodTrace : Text :=
  "M 0x1010 0x1020 0x10 0x11\nW 0x1018 0x12 0x11\nF 0x1010 0x13 0x11\nE \n".toList

/-- The records of it. -/
def goodEntries : List Entry :=
  [⟨.M 0x1010 0x1020, " 0x10 0x11".toList⟩, ⟨.W 0x1018, " 0x12 0x11".toList⟩,
    ⟨.F 0x1010, " 0x13 0x11".toList⟩]

lemma goodTrace_complete : TraceFile goodTrace goodEntries :=
  .record ⟨'M', _, rfl, rfl, by decide⟩ (.record ⟨'W', _, rfl, rfl, by decide⟩
    (.record ⟨'F', _, rfl, rfl, by decide⟩ (.close rfl rfl)))

lemma goodLines_rows : lineRows ⟨[], 0, 0⟩ goodLines
    = [⟨"a.c".toList, 1, 0x8⟩, ⟨"a.c".toList, 2, 0x20⟩] := by
  decide

lemma goodLines_resolvable {s : Text} {a : UInt64} (h : ReadsAddresses s [a])
    (ha : 0x8 ≤ a ∧ a < 0x20) : Resolvable (lineRows ⟨[], 0, 0⟩ goodLines) s := by
  refine ⟨⟨[a], h⟩, fun as has => Or.inr ?_⟩
  rw [has.unique h, goodLines_rows]
  refine ⟨a, List.mem_singleton_self a, 1, _, ⟨⟨le_refl 1, by decide, _, _, rfl, rfl, ha.1, ha.2⟩,
    fun k hk hb => ?_⟩, rfl, by decide⟩
  have := hb.1
  omega

lemma goodTrace_constructible :
    Constructible ⟨[], 0, 0⟩ goodLines goodTrace goodEntries 1024 where
  header := by
    intro _ header hheader
    have hline : (completeLines goodLines)[5]? = some "CU: a.c:".toList := by decide
    cases hline.symm.trans hheader
    decide
  text := goodTrace_complete
  resolvable := by
    have hmem : ∀ x ∈ goodEntries, ∃ a, ReadsAddresses x.context [a] ∧ 0x8 ≤ a ∧ a < 0x20 := by
      simp only [goodEntries, List.forall_mem_cons, List.not_mem_nil, false_implies, implies_true,
        and_true]
      exact ⟨⟨0x10, .next (by decide) (by decide) (.last (by decide)), by decide⟩,
        ⟨0x12, .next (by decide) (by decide) (.last (by decide)), by decide⟩,
        ⟨0x13, .next (by decide) (by decide) (.last (by decide)), by decide⟩⟩
    intro x hx
    obtain ⟨a, ha, hrow⟩ := hmem x hx
    exact goodLines_resolvable ha hrow
  cacheLine := by decide
  loadable := ⟨by decide, by decide, countersFit_of_length (by decide), by decide⟩

theorem goodTrace_completes :
    ConstructorCompletes ⟨'?', 0⟩ ⟨[], 0, 0⟩ (some goodLines) (some goodTrace) 1024 :=
  (construct_completes_iff _ _ _ _ _ fun text htext =>
      ⟨goodEntries, by rw [← Option.some.inj htext]; exact goodTrace_complete⟩).mpr
    ⟨_, _, _, rfl, rfl, goodTrace_constructible⟩

/-- A traced program that never allocates: there is no region to begin with. -/
theorem emptyTrace_not_completes :
    ¬ ConstructorCompletes ⟨'?', 0⟩ ⟨[], 0, 0⟩ (some goodLines) (some "E \n".toList) 1024 := by
  intro h
  exact not_loadable_nil (constructible_of_construct (.close rfl rfl) h).loadable

end PerVERT
