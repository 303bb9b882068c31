import PerVERT.Server.ContextDeriv
import PerVERT.Server.ContextSample
import PerVERT.Server.StyledWriter

/-!
# Which answers can be written

`StyledWriter` has a spelling for the answer of a handler if the trace is of a size that `int`s can
count, and its names are texts.

* `Tellable` — what is asked of a trace.
* `PlainValues.of_forall`, `Negatable.toInt` — how the answers are put together.
* `f_counts_plain`, `f_mem_status_plain`, `f_context_stack_plain`, `f_context_events_plain`,
  `f_context_deriv_plain`, `f_context_histo_plain` — one lemma for each handler.
-/

namespace PerVERT

/-- Everything that the handlers tell of the trace can be written: there are no more events and
frames than an array has room for, the remapped addresses are `int`s, and a file name is a text. -/
structure Tellable (t : Trace) : Prop where
  events : 3 * t.events.length < 2 ^ 31
  address : ∀ e ∈ t.events, e.arg1.toNat < 2 ^ 31
  blockEnd : ∀ e ∈ t.events, e.type = .MALLOC → e.arg2.toNat < 2 ^ 31
  maxAddress : t.maxAddress.toNat < 2 ^ 31
  file : ∀ location ∈ t.locations, Quotable location.file
  stack : ∀ e ∈ t.events, ∀ context ∈ t.contexts e.context, 3 * context.length < 2 ^ 31

instance (t : Trace) : Decidable (Tellable t) :=
  decidable_of_iff (3 * t.events.length < 2 ^ 31 ∧ (∀ e ∈ t.events, e.arg1.toNat < 2 ^ 31) ∧
      (∀ e ∈ t.events, e.type = .MALLOC → e.arg2.toNat < 2 ^ 31) ∧
      t.maxAddress.toNat < 2 ^ 31 ∧ (∀ location ∈ t.locations, Quotable location.file) ∧
      ∀ e ∈ t.events, ∀ context ∈ t.contexts e.context, 3 * context.length < 2 ^ 31)
    ⟨fun ⟨events, address, blockEnd, maxAddress, file, stack⟩ =>
      ⟨events, address, blockEnd, maxAddress, file, stack⟩,
    fun h => ⟨h.events, h.address, h.blockEnd, h.maxAddress, h.file, h.stack⟩⟩

lemma Tellable.fits {t : Trace} (h : Tellable t) : Fits t := by
  have hevents := h.events
  exact ⟨by omega, h.address⟩

/-! ## Building blocks -/

section Blocks

variable {indent : ℕ} {values : List Json}

lemma Negatable.toInt {n : ℕ} (h : n < 2 ^ 31) : Negatable (PerVERT.toInt n) := by
  rw [toInt_of_lt h, Negatable]
  omega

lemma PlainValues.of_forall (h : ∀ v ∈ values, v.PlainAt indent) :
    Json.PlainValues indent values := by
  induction values with
  | nil => trivial
  | cons v values ih =>
      exact ⟨h v List.mem_cons_self, ih fun x hx => h x (List.mem_cons_of_mem _ hx)⟩

/-- An array that is a member of the answer. -/
lemma plain_array {α : Type} {l : List α} {f : α → Json} (hlength : 3 * l.length < 2 ^ 31)
    (h : ∀ a ∈ l, (f a).PlainAt 6) : (Json.array (l.map f)).PlainAt 3 := by
  refine ⟨by rwa [List.length_map], by decide, PlainValues.of_forall fun v hv => ?_⟩
  obtain ⟨a, ha, rfl⟩ := List.mem_map.mp hv
  exact h a ha

/-- Two `int`s, each with its name, for an element of such an array. -/
lemma plain_pair {name name' : String} {x y : ℤ} (hname : Quotable name.toList)
    (hname' : Quotable name'.toList) (hx : Negatable x) (hy : Negatable y) :
    (Json.object [intMember name x, intMember name' y]).PlainAt 6 :=
  ⟨by decide, hname, hx, hname', hy, trivial⟩

lemma quotable_letter {c : Char} (h : c ≠ '\x00') : Quotable [c] :=
  ⟨by simp [h.symm], by simp⟩

end Blocks

/-! ## The handlers -/

section Handlers

variable {t : Trace} {f : ℕ} {e : Event}

lemma Loaded.byType (h : Loaded t) (T : EventType) :
    t.byType T = positions (fun e => e.type = T) t.events := by
  obtain ⟨p, hload, -⟩ := h.exists_load
  obtain ⟨-, m, -, himage, rfl⟩ := load_mapped hload
  show positions (fun e => e.type = T) p.events
    = positions (fun e => e.type = T) (p.events.map (mapEvent m))
  rw [positions_map]
  refine positions_congr fun e he => ?_
  rw [(remapEvent_fields (himage e he)).2.1]

/-- **The counts.** -/
lemma f_counts_plain (hloaded : Loaded t) (h : Tellable t) : (f_counts t).toJson.Plain := by
  have hevents := h.fits.length
  have hcount : ∀ T, Negatable (toInt (t.byType T).length) := by
    intro T
    refine Negatable.toInt (lt_of_le_of_lt ?_ hevents)
    rw [hloaded.byType, positions_length]
    exact List.length_filter_le _ _
  refine ⟨by decide, by decide, Negatable.toInt hevents, by decide, hcount _, by decide, hcount _,
    by decide, Negatable.toInt h.maxAddress, by decide, hcount _, by decide, hcount _, trivial⟩

/-- The blocks of a snapshot are events of the trace, and no more than these. -/
lemma Loaded.pointees_snapshot (hloaded : Loaded t) {snapshot : List ℕ}
    (hsnapshot : t.validRegions[f]? = some snapshot) :
    (pointees t.events snapshot).length ≤ t.events.length ∧
      ∀ r ∈ pointees t.events snapshot, r ∈ t.events ∧ r.type = .MALLOC := by
  obtain ⟨p, hload, -⟩ := hloaded.exists_load
  obtain ⟨hacc, m, -, himage, rfl⟩ := load_mapped hload
  have hf : f < p.events.length := by
    have hlt := lt_of_getElem? hsnapshot
    rwa [show (indexedTrace p 1024).validRegions = snapshots p.events from rfl, snapshots,
      List.length_map, List.length_range] at hlt
  rw [show (indexedTrace p 1024).validRegions = snapshots p.events from rfl,
    snapshots_getElem? hf, Option.some.injEq] at hsnapshot
  subst hsnapshot
  show (pointees (p.events.map (mapEvent m)) _).length ≤ (p.events.map (mapEvent m)).length ∧
    ∀ r ∈ pointees (p.events.map (mapEvent m)) _, r ∈ p.events.map (mapEvent m) ∧ _
  rw [pointees_map, List.length_map, List.length_map]
  have hblocks : ∀ r ∈ blocksAfter p.events (f + 1), r ∈ p.events ∧ r.type = .MALLOC := by
    intro r hr
    obtain ⟨i, hlive⟩ := (mem_blocksAfter hacc (f + 1) r).mp hr
    exact ⟨List.mem_of_mem_take (List.mem_of_getElem? hlive.at_i), hlive.malloc⟩
  constructor
  · have hnodup : (blocksAfter p.events (f + 1)).Nodup :=
      (blocksAfter_sorted hacc (f + 1)).imp fun hlt heq => by
        rw [heq] at hlt
        exact lt_irrefl _ hlt
    exact (List.subperm_of_subset hnodup fun r hr => (hblocks r hr).1).length_le
  · intro r hr
    obtain ⟨x, hx, rfl⟩ := List.mem_map.mp hr
    obtain ⟨hmem, hmalloc⟩ := hblocks x hx
    exact ⟨List.mem_map_of_mem hmem, by rw [(remapEvent_fields (himage x hmem)).2.1, hmalloc]⟩

/-- **The memory view.** -/
lemma f_mem_status_plain (hloaded : Loaded t) (h : Tellable t) (hf : f < t.events.length)
    {window : ℤ} {answer : MemStatus} (hanswer : f_mem_status t f window = .ok (some answer)) :
    answer.toJson.Plain := by
  obtain ⟨snapshot, hsnapshot⟩ := hloaded.snapshot hf
  rw [f_mem_status_eq hf hsnapshot] at hanswer
  cases hanswer
  obtain ⟨hlength, hregions⟩ := hloaded.pointees_snapshot hsnapshot
  have hevents := h.events
  have hshown : 3 * (shownAccesses t.events f (toUnsigned window)).length < 2 ^ 31 := by
    have hle : (shownAccesses t.events f (toUnsigned window)).length ≤ t.events.length := by
      rw [shownAccesses, List.length_take, List.length_reverse]
      refine le_trans (Nat.min_le_right _ _) (le_trans (List.length_filter_le _ _) ?_)
      rw [List.length_take]
      exact Nat.min_le_right _ _
    omega
  refine ⟨by decide, by decide, ?_, by decide, ?_, by decide, ?_, by decide, ?_, trivial⟩
  · refine plain_array (by rwa [List.length_map]) fun x hx => ?_
    obtain ⟨e, he, rfl⟩ := List.mem_map.mp hx
    exact Negatable.toInt (h.address e (mem_of_mem_shownAccesses he))
  · refine plain_array (by rwa [List.length_map]) fun x hx => ?_
    obtain ⟨e, -, rfl⟩ := List.mem_map.mp hx
    rw [accessLetter]
    split_ifs
    · exact quotable_letter (by decide)
    · exact quotable_letter (by decide)
  · exact plain_array (by rwa [List.length_map]) fun _ _ => trivial
  · refine plain_array (by rw [List.length_map]; omega) fun x hx => ?_
    obtain ⟨r, hr, rfl⟩ := List.mem_map.mp hx
    obtain ⟨hmem, hmalloc⟩ := hregions r hr
    exact plain_pair (by decide) (by decide) (Negatable.toInt (h.address r hmem))
      (Negatable.toInt (h.blockEnd r hmem hmalloc))

/-- What a result of a checked loop was computed from. -/
lemma exists_of_forall₂ {α β : Type} {R : α → β → Prop} {l : List α} {r : List β}
    (h : List.Forall₂ R l r) {b : β} (hb : b ∈ r) : ∃ a, R a b := by
  induction h with
  | nil => cases hb
  | cons hab _ ih =>
      rcases List.mem_cons.mp hb with rfl | hb
      · exact ⟨_, hab⟩
      · exact ih hb

/-- **The stack of a frame.** -/
lemma f_context_stack_plain (hloaded : Loaded t) (h : Tellable t) {frame : ℤ}
    {stack : List (Text × UInt32)} (hanswer : f_context_stack t frame = .ok (some stack)) :
    (stackJson stack).Plain := by
  obtain ⟨e, he, hanswer⟩ := checked_bind_eq_ok.mp hanswer
  have hmem := List.mem_of_getElem? (vectorAt_eq_ok.mp he).2
  split_ifs at hanswer
  · cases hanswer
  · obtain ⟨stack', hstack, hanswer⟩ := checked_bind_eq_ok.mp hanswer
    cases hanswer
    obtain ⟨context, hcontext, -⟩ := hloaded.context hmem
    simp only [stackFramesOf, hcontext] at hstack
    have hall := checked_mapM_eq_ok.mp hstack
    have hlength := h.stack e hmem context hcontext
    rw [hall.length_eq] at hlength
    refine ⟨by decide, by decide, plain_array hlength fun row hrow => ?_, trivial⟩
    obtain ⟨i, hi⟩ := exists_of_forall₂ hall hrow
    obtain ⟨location, hlocation, hi⟩ := checked_bind_eq_ok.mp hi
    cases hi
    have hfile := h.file location (List.mem_of_getElem? (vectorAt_eq_ok.mp hlocation).2)
    exact ⟨by decide, by decide, hfile, by decide, location.line.toNat_lt, trivial⟩

/-- The position of an event is an `int`. -/
lemma index_negatable (hloaded : Loaded t) (h : Tellable t) (he : e ∈ t.events) :
    Negatable (toInt e.index.toNat) := by
  obtain ⟨i, hi⟩ := List.mem_iff_getElem?.mp he
  have hlt := lt_of_getElem? hi
  have hevents := h.fits.length
  refine Negatable.toInt ?_
  rw [hloaded.index hi, UInt32.toNat_ofNat']
  omega

lemma length_sampledEvents_le {delta : ℤ} : ∀ {es : List Event} {count : ℤ},
    (sampledEvents delta es count).length ≤ es.length
  | [], _ => le_refl _
  | e :: es, count => by
      have hrest := @length_sampledEvents_le delta es (count + 1)
      rw [sampledEvents]
      split_ifs
      · exact Nat.succ_le_succ hrest
      · exact Nat.le_succ_of_le hrest

lemma length_sentEvents_le (hloaded : Loaded t) (e : Event) :
    (sentEvents t e).length ≤ t.events.length := by
  rw [sentEvents]
  split_ifs
  · exact le_trans length_sampledEvents_le (contextEvents_length hloaded e.context).2
  · exact Nat.zero_le _

lemma typeLetter_quotable {type : EventType} {letter : Text} (h : typeLetter type = .ok letter) :
    Quotable letter := by
  cases type with
  | END => cases h
  | MALLOC | FREE | READ | WRITE =>
      cases h
      exact quotable_letter (by decide)

/-- **The sampled events.** -/
lemma f_context_events_plain (hloaded : Loaded t) (h : Tellable t) {frame : ℤ}
    {answer : ContextEvents} (hanswer : f_context_events t frame = .ok (some answer)) :
    answer.toJson.Plain := by
  have htype : Quotable answer.type := by
    rw [f_context_events] at hanswer
    split_ifs at hanswer
    · cases hanswer
    · obtain ⟨e, -, hanswer⟩ := checked_bind_eq_ok.mp hanswer
      obtain ⟨type, htype, hanswer⟩ := checked_bind_eq_ok.mp hanswer
      have hletter := typeLetter_quotable htype
      split_ifs at hanswer
      · obtain ⟨events, -, hanswer⟩ := checked_bind_eq_ok.mp hanswer
        cases hanswer
        exact hletter
      · cases hanswer
        exact hletter
  obtain ⟨e, -, hsent⟩ := f_context_events_eq_some hanswer
  have hlength := length_sentEvents_le hloaded e
  have hevents := h.events
  refine ⟨by decide, by decide, plain_array ?_ fun x hx => ?_, by decide, htype, trivial⟩
  · rw [hsent, List.length_map]
    omega
  · rw [hsent] at hx
    obtain ⟨y, hy, rfl⟩ := List.mem_map.mp hx
    have hmem := mem_of_mem_sentEvents hy
    exact plain_pair (by decide) (by decide) (Negatable.toInt (h.address y hmem))
      (index_negatable hloaded h hmem)

lemma intAbs_negatable {x y : ℤ} (h : intAbs x = .ok y) : Negatable y := by
  rw [intAbs] at h
  split_ifs at h with hin
  cases h
  rw [InInt] at hin
  rw [Negatable]
  omega

/-- The loop over the lines has one entry for each event. -/
lemma derivLoop_entries {es : List Event} {lastLine : ℤ} {entries : List (ℤ × ℤ)}
    (h : derivLoop es lastLine = .ok entries) : entries.length = es.length ∧
      ∀ x ∈ entries, Negatable x.2 ∧ ∃ e ∈ es, x.1 = toInt e.index.toNat := by
  induction es generalizing lastLine entries with
  | nil =>
      obtain rfl : [] = entries := Except.ok.inj h
      exact ⟨rfl, by simp⟩
  | cons e es ih =>
      rw [derivLoop_cons] at h
      obtain ⟨difference, -, h⟩ := checked_bind_eq_ok.mp h
      obtain ⟨delta, hdelta, h⟩ := checked_bind_eq_ok.mp h
      obtain ⟨rest, hrest, h⟩ := checked_bind_eq_ok.mp h
      obtain rfl := Except.ok.inj h
      obtain ⟨hlength, hentries⟩ := ih hrest
      refine ⟨by rw [List.length_cons, List.length_cons, hlength], fun x hx => ?_⟩
      rcases List.mem_cons.mp hx with rfl | hx
      · exact ⟨intAbs_negatable hdelta, e, List.mem_cons_self, rfl⟩
      · obtain ⟨hx2, y, hy, hx1⟩ := hentries x hx
        exact ⟨hx2, y, List.mem_cons_of_mem _ hy, hx1⟩

/-- **The jumps.** -/
lemma f_context_deriv_plain (hloaded : Loaded t) (h : Tellable t) {frame : ℤ}
    {entries : List (ℤ × ℤ)} (hanswer : f_context_deriv t frame = .ok (some entries)) :
    (derivJson entries).Plain := by
  have hevents := h.events
  have hall : 3 * entries.length < 2 ^ 31 ∧ ∀ x ∈ entries, Negatable x.2 ∧ Negatable x.1 := by
    rw [f_context_deriv] at hanswer
    split_ifs at hanswer
    · cases hanswer
    · obtain ⟨e, -, hanswer⟩ := checked_bind_eq_ok.mp hanswer
      split_ifs at hanswer
      · obtain ⟨entries', hloop, hanswer⟩ := checked_bind_eq_ok.mp hanswer
        cases hanswer
        obtain ⟨hlength, hentries⟩ := derivLoop_entries hloop
        have hcontext := (contextEvents_length hloaded e.context).2
        refine ⟨by omega, fun x hx => ?_⟩
        obtain ⟨hdelta, y, hy, hindex⟩ := hentries x hx
        exact ⟨hdelta, hindex ▸ index_negatable hloaded h (mem_contextEvents hy)⟩
      · cases hanswer
        exact ⟨by decide, by simp⟩
  exact ⟨by decide, by decide, plain_array hall.1 fun x hx =>
    plain_pair (by decide) (by decide) (hall.2 x hx).1 (hall.2 x hx).2, trivial⟩

/-- Ten counters that are not negative. -/
def Counters (histogram : List ℤ) : Prop :=
  histogram.length = 10 ∧ ∀ count ∈ histogram, 0 ≤ count ∧ count < 2 ^ 31

lemma Counters.countDelta {histogram histogram' : List ℤ} {delta : ℤ} (h : Counters histogram)
    (hcount : countDelta delta histogram = .ok histogram') : Counters histogram' := by
  rw [PerVERT.countDelta] at hcount
  split at hcount
  · cases hcount
    exact h
  · obtain ⟨count, hold, hcount⟩ := checked_bind_eq_ok.mp hcount
    obtain ⟨count', hnew, hcount⟩ := checked_bind_eq_ok.mp hcount
    cases hcount
    obtain ⟨hin, rfl⟩ := intAdd_eq_ok.mp hnew
    have hpos := (h.2 count (List.mem_of_getElem? (vectorAt_eq_ok.mp hold).2)).1
    rw [InInt] at hin
    refine ⟨by rw [List.length_set, h.1], fun x hx => ?_⟩
    rcases List.mem_or_eq_of_mem_set hx with hx | rfl
    · exact h.2 x hx
    · omega

/-- **The loop over the addresses** keeps them so. -/
lemma Counters.histoLoop : ∀ {es : List Event} {lastAddr : ℤ} {histogram histogram' : List ℤ},
    Counters histogram → histoLoop es lastAddr histogram = .ok histogram' → Counters histogram'
  | [], _, _, _, h, hloop => by
      cases hloop
      exact h
  | e :: es, lastAddr, histogram, histogram', h, hloop => by
      rw [PerVERT.histoLoop] at hloop
      split_ifs at hloop
      · exact h.histoLoop hloop
      · obtain ⟨difference, -, hloop⟩ := checked_bind_eq_ok.mp hloop
        obtain ⟨delta, -, hloop⟩ := checked_bind_eq_ok.mp hloop
        obtain ⟨counted, hcounted, hloop⟩ := checked_bind_eq_ok.mp hloop
        exact (h.countDelta hcounted).histoLoop hloop

/-- **The histogram.** -/
lemma f_context_histo_plain {frame : ℤ} {histogram : List ℤ}
    (hanswer : f_context_histo t frame = .ok (some histogram)) : (histoJson histogram).Plain := by
  have hzero : Counters (List.replicate 10 0) := by
    refine ⟨rfl, fun count hcount => ?_⟩
    rw [List.eq_of_mem_replicate hcount]
    decide
  have hcounters : Counters histogram := by
    rw [f_context_histo] at hanswer
    split_ifs at hanswer
    · cases hanswer
    · obtain ⟨e, -, hanswer⟩ := checked_bind_eq_ok.mp hanswer
      change (if e.isAccess then histoLoop (contextEvents t e.context) (-1) (List.replicate 10 0)
        >>= fun histogram => pure (some histogram) else pure (some (List.replicate 10 0)))
        = Except.ok (some histogram) at hanswer
      split_ifs at hanswer
      · obtain ⟨histogram', hloop, hanswer⟩ := checked_bind_eq_ok.mp hanswer
        cases hanswer
        exact hzero.histoLoop hloop
      · cases hanswer
        exact hzero
  refine ⟨by decide, by decide, plain_array (by rw [hcounters.1]; decide) fun count hcount => ?_,
    trivial⟩
  have hbounds := hcounters.2 count hcount
  exact ⟨by omega, by omega⟩

end Handlers

end PerVERT
