import PerVERT.Backend.Index

/-!
# `/f/mem_status`

The memory view asks for the live blocks just after a frame and for the last accesses up to it,
each with a mask that tells whether the address accessed belongs to a block live *at the frame*.

* `f_mem_status` — the handler, from the trace and the two numbers of the query.
* `MemStatusSpec` — what the answer should be, said of the raw events alone.
* **`f_mem_status_spec`** — the answer of a loaded trace is that, although the handler only ever
  looks at remapped addresses and at snapshots taken before the remap.

The mask is where the three passes have to agree: `valid_iff` moves the half-open test from
mapped to raw addresses along the strict monotonicity of `compress`.
-/

namespace PerVERT

/-! ## The handler -/

/-- The JSON object the handler writes. -/
structure MemStatus where
  /-- `begin` and `end` of each region. -/
  regions : List (ℤ × ℤ)
  events : List Text
  addr : List ℤ
  mask : List Bool
  deriving DecidableEq, Repr

/-- `event.type == Trace::Event::READ ? "r" : "w"`. -/
def accessLetter (e : Event) : Text :=
  if e.type = .READ then ['r'] else ['w']

/-- Some region of `validRegions` contains the address, its end excluded. -/
def validIn (validRegions : List Event) (event : Event) : Bool :=
  validRegions.any fun r => r.arg1 ≤ event.arg1 ∧ event.arg1 < r.arg2

/-- The loop over the frames, downwards from frame `n - 1`. -/
def memStatusLoop (events validRegions : List Event) (window : ℕ) :
    ℕ → ℕ → MemStatus → Checked MemStatus
  | 0, _, acc => pure acc
  | n + 1, count, acc =>
      if count < window then do
        let event ← vectorAt events n
        if event.isAccess then
          memStatusLoop events validRegions window n (count + 1) { acc with
            events := acc.events ++ [accessLetter event]
            addr := acc.addr ++ [toInt event.arg1.toNat]
            mask := acc.mask ++ [validIn validRegions event] }
        else
          memStatusLoop events validRegions window n count acc
      else
        pure acc

/-- `PervertLayer::f_mem_status`, once the query has given a loaded trace and the `int`s `frame`
and `window`.  `none` is the answer 500. -/
def f_mem_status (trace : Trace) (frame window : ℤ) : Checked (Option MemStatus) :=
  if trace.events.length ≤ toUnsigned frame then
    pure none
  else do
    let snapshot ← vectorAt trace.validRegions frame
    let validRegions := pointees trace.events snapshot
    let regions := validRegions.map fun r => (toInt r.arg1.toNat, toInt r.arg2.toNat)
    let answer ← memStatusLoop trace.events validRegions (toUnsigned window) (frame + 1).toNat 0
      ⟨regions, [], [], []⟩
    pure (some answer)

/-! ## What the answer should be -/

section Spec

variable (events : List Event) (f w : ℕ)

/-- The last `w` accesses among the events `0 .. f`, newest first. -/
def shownAccesses : List Event :=
  (((events.take (f + 1)).filter Event.isAccess).reverse).take w

/-- The address lies in a block that was malloc'ed at or before event `f` and not freed after
that up to `f`. -/
def InLiveBlock (a : UInt64) : Prop :=
  ∃ i e, LiveMalloc (events.take (f + 1)) i e ∧ e.arg1 ≤ a ∧ a < e.arg2

/-- The place of an address of these events in the memory view. -/
noncomputable def viewAddress (a : UInt64) : ℕ :=
  mappedAddress 1024 (mallocsOf events) a

/-- No address of these events is too large for an `int` once mapped. -/
def FitsInt : Prop :=
  ∀ e ∈ events, viewAddress events e.arg1 < 2 ^ 31 ∧
    (e.type = .MALLOC → viewAddress events e.arg2 < 2 ^ 31)

/-- The answer for frame `f` and window `w`, in terms of the raw events. -/
structure MemStatusSpec (answer : MemStatus) : Prop where
  events_eq : answer.events = (shownAccesses events f w).map accessLetter
  addr_eq : answer.addr = (shownAccesses events f w).map fun e => toInt (viewAddress events e.arg1)
  mask_iff : List.Forall₂ (fun e valid => valid = true ↔ InLiveBlock events f e.arg1)
    (shownAccesses events f w) answer.mask
  lengths : answer.events.length = min w ((events.take (f + 1)).countP Event.isAccess) ∧
    answer.addr.length = answer.events.length ∧ answer.mask.length = answer.events.length
  /-- The regions are the live blocks in ascending order of begin. -/
  regions_eq : ∃ blocks : List Event,
    (∀ e, e ∈ blocks ↔ ∃ i, LiveMalloc (events.take (f + 1)) i e) ∧
    (blocks.Pairwise fun p q => p.arg1 < q.arg1) ∧
    answer.regions = (blocks.map fun e =>
      (toInt (viewAddress events e.arg1), toInt (viewAddress events e.arg2))) ∧
    (FitsInt events → (answer.regions.Pairwise fun p q => p.1 < q.1) ∧
      answer.regions = blocks.map fun e =>
        ((viewAddress events e.arg1 : ℤ), (viewAddress events e.arg2 : ℤ)))
  /-- Nothing is lost in the conversion when the addresses fit. -/
  addr_exact : FitsInt events →
    answer.addr = (shownAccesses events f w).map fun e => (viewAddress events e.arg1 : ℤ)

end Spec

/-! ## The loop -/

/-- The loop lists the accesses among the first `n` events, newest first, until the window is
full. -/
lemma memStatusLoop_eq (events validRegions : List Event) (window : ℕ) :
    ∀ (n count : ℕ) (acc : MemStatus), n ≤ events.length →
      let shown := (((events.take n).filter Event.isAccess).reverse).take (window - count)
      memStatusLoop events validRegions window n count acc = .ok
        { regions := acc.regions
          events := acc.events ++ shown.map accessLetter
          addr := acc.addr ++ shown.map fun e => toInt e.arg1.toNat
          mask := acc.mask ++ shown.map (validIn validRegions) }
  | 0, count, acc, _ => by simp [memStatusLoop]; rfl
  | n + 1, count, acc, h => by
      have hn : n < events.length := h
      have hget : events[n]? = some events[n] := List.getElem?_eq_getElem hn
      have htake : events.take (n + 1) = events.take n ++ [events[n]] := by
        rw [List.take_add_one, hget]; rfl
      simp only [memStatusLoop]
      split_ifs with hc
      · rw [vectorAt_of_getElem? hget]
        change (if events[n].isAccess then _ else _) = _
        obtain ⟨k, hk⟩ : ∃ k, window - count = k + 1 := ⟨window - count - 1, by omega⟩
        split_ifs with ha
        · have hfilter : (events.take (n + 1)).filter Event.isAccess
              = (events.take n).filter Event.isAccess ++ [events[n]] := by
            rw [htake, List.filter_append]; simp [ha]
          have hk' : window - (count + 1) = k := by omega
          rw [memStatusLoop_eq events validRegions window n _ _ (le_of_lt hn), hfilter, hk, hk']
          simp
        · have hfilter : (events.take (n + 1)).filter Event.isAccess
              = (events.take n).filter Event.isAccess := by
            rw [htake, List.filter_append]; simp [ha]
          rw [memStatusLoop_eq events validRegions window n _ _ (le_of_lt hn), hfilter]
      · have hzero : window - count = 0 := by omega
        simp [hzero]; rfl

/-- What the handler answers for a frame in range, whatever the trace. -/
lemma f_mem_status_eq {t : Trace} {f : ℕ} {snapshot : List ℕ} (hf : f < t.events.length)
    (hsnap : t.validRegions[f]? = some snapshot) (window : ℤ) :
    f_mem_status t f window = .ok (some
      { regions := (pointees t.events snapshot).map fun r =>
          (toInt r.arg1.toNat, toInt r.arg2.toNat)
        events := (shownAccesses t.events f (toUnsigned window)).map accessLetter
        addr := (shownAccesses t.events f (toUnsigned window)).map fun e => toInt e.arg1.toNat
        mask := (shownAccesses t.events f (toUnsigned window)).map
          (validIn (pointees t.events snapshot)) }) := by
  have hframe : ¬ t.events.length ≤ toUnsigned f := by
    simp only [toUnsigned]
    omega
  have hcount : ((f : ℤ) + 1).toNat = f + 1 := by omega
  rw [f_mem_status, if_neg hframe, vectorAt_of_getElem? hsnap, hcount]
  show (memStatusLoop _ _ _ (f + 1) 0 _ >>= fun answer => pure (some answer)) = _
  rw [memStatusLoop_eq _ _ _ _ _ _ hf]
  rfl

/-! ## From mapped to raw -/

section Mapped

variable {m : AddressMap}

/-- The image of an event under the address map. -/
def mapEvent (m : AddressMap) (e : Event) : Event :=
  match remapEvent m e with
  | .ok e' => e'
  | .error _ => e

lemma mapEvent_of_ok {e e' : Event} (h : remapEvent m e = .ok e') : mapEvent m e = e' := by
  rw [mapEvent, h]

lemma eq_map_of_forall₂ : ∀ {events mapped : List Event},
    List.Forall₂ (fun e e' => remapEvent m e = .ok e') events mapped →
    mapped = events.map (mapEvent m) ∧ ∀ e ∈ events, remapEvent m e = .ok (mapEvent m e)
  | _, _, .nil => by simp
  | e :: events, e' :: mapped, .cons h hrest => by
      obtain ⟨rfl, hall⟩ := eq_map_of_forall₂ hrest
      refine ⟨by rw [List.map_cons, mapEvent_of_ok h], fun x hx => ?_⟩
      rcases List.mem_cons.mp hx with rfl | hx
      · rw [mapEvent_of_ok h, h]
      · exact hall x hx

/-- **A loaded trace**, with its events as the images of those that were read. -/
lemma load_mapped {p : Parsed} {cacheLine : UInt64} {t : Trace}
    (h : Trace.load p cacheLine = .ok t) : Accepted p.events ∧
      ∃ m, addressMap cacheLine (mallocsOf p.events) = .ok m ∧
        (∀ e ∈ p.events, remapEvent m e = .ok (mapEvent m e)) ∧
        t = { indexedTrace p cacheLine with
          events := p.events.map (mapEvent m), maxAddress := m.maxAddress } := by
  obtain ⟨hacc, m, hm, mapped, hmapped, rfl⟩ := load_eq_ok.mp h
  obtain ⟨rfl, himage⟩ := eq_map_of_forall₂ hmapped
  exact ⟨hacc, m, hm, himage, rfl⟩

lemma pointees_map (g : Event → Event) (events : List Event) (ptrs : List ℕ) :
    pointees (events.map g) ptrs = (pointees events ptrs).map g := by
  simp only [pointees, List.map_filterMap, List.getElem?_map]

end Mapped

/-! ## The answer of a loaded trace -/

section Answer

variable {events : List Event} {g : Event → Event}

/-- `g` takes the event to its place in the memory view. -/
structure Placed (events : List Event) (g : Event → Event) (e : Event) : Prop where
  type_eq : (g e).type = e.type
  arg1_inUse : InUse (mallocsOf events) e.arg1.toNat
  arg1_eq : (g e).arg1.toNat = viewAddress events e.arg1
  arg2_inUse : e.type = .MALLOC → InUse (mallocsOf events) e.arg2.toNat
  arg2_eq : e.type = .MALLOC → (g e).arg2.toNat = viewAddress events e.arg2

lemma placed_of_remapEvent {m : AddressMap} (hwf : WellFormed (mallocsOf events))
    (hm : addressMap 1024 (mallocsOf events) = .ok m) {e : Event}
    (he : remapEvent m e = .ok (mapEvent m e)) : Placed events (mapEvent m) e := by
  obtain ⟨-, htype, -, h1, h2⟩ := remapEvent_fields he
  have hplace : ∀ a a', remapAddress a m.regions m.offsets = .ok a' →
      InUse (mallocsOf events) a.toNat ∧ a'.toNat = viewAddress events a :=
    fun _ _ ha => place_of_remapAddress (by decide) (by decide) hwf hm ha
  exact ⟨htype, (hplace _ _ h1).1, (hplace _ _ h1).2, fun hm => (hplace _ _ (h2 hm)).1,
    fun hm => (hplace _ _ (h2 hm)).2⟩

/-- The accesses shown of the placed events are the accesses shown, placed. -/
lemma shownAccesses_map (hg : ∀ e ∈ events, Placed events g e) (f w : ℕ) :
    shownAccesses (events.map g) f w = (shownAccesses events f w).map g := by
  have hfilter : ((events.take (f + 1)).map g).filter Event.isAccess
      = ((events.take (f + 1)).filter Event.isAccess).map g := by
    rw [List.filter_map]
    congr 1
    refine List.filter_congr fun e he => ?_
    show (g e).isAccess = e.isAccess
    rw [Event.isAccess, Event.isAccess, (hg e (List.mem_of_mem_take he)).type_eq]
  rw [shownAccesses, shownAccesses, ← List.map_take, hfilter, ← List.map_reverse, List.map_take]

lemma mem_of_mem_shownAccesses {f w : ℕ} {e : Event} (he : e ∈ shownAccesses events f w) :
    e ∈ events :=
  List.mem_of_mem_take (List.mem_filter.mp (List.mem_reverse.mp (List.mem_of_mem_take he))).1

/-- **The mask bit.**  The handler's test on placed addresses is the test on raw ones. -/
lemma valid_iff (hg : ∀ e ∈ events, Placed events g e) (hacc : Accepted events) (f : ℕ)
    {e : Event} (he : e ∈ events) :
    validIn ((blocksAfter events (f + 1)).map g) (g e) = true ↔ InLiveBlock events f e.arg1 := by
  have hmoved : ∀ r ∈ events, r.type = .MALLOC →
      (((g r).arg1 ≤ (g e).arg1 ∧ (g e).arg1 < (g r).arg2) ↔
        (r.arg1 ≤ e.arg1 ∧ e.arg1 < r.arg2)) := by
    intro r hr hm
    have pe := hg e he
    have pr := hg r hr
    simp only [UInt64.le_iff_toNat_le, UInt64.lt_iff_toNat_lt, pe.arg1_eq, pr.arg1_eq,
      pr.arg2_eq hm, viewAddress, mappedAddress]
    rw [compress_le_iff (by decide) pr.arg1_inUse pe.arg1_inUse,
      compress_lt_iff (by decide) pe.arg1_inUse (pr.arg2_inUse hm)]
  have hmem : ∀ {i r}, LiveMalloc (events.take (f + 1)) i r → r ∈ events :=
    fun hr => List.mem_of_mem_take (List.mem_of_getElem? hr.at_i)
  simp only [validIn, List.any_map, List.any_eq_true, Function.comp_apply, decide_eq_true_eq,
    InLiveBlock]
  constructor
  · rintro ⟨r, hr, hin⟩
    obtain ⟨i, hlive⟩ := (mem_blocksAfter hacc (f + 1) r).mp hr
    exact ⟨i, r, hlive, (hmoved r (hmem hlive) hlive.malloc).mp hin⟩
  · rintro ⟨i, r, hlive, hin⟩
    exact ⟨r, (mem_blocksAfter hacc (f + 1) r).mpr ⟨i, hlive⟩,
      (hmoved r (hmem hlive) hlive.malloc).mpr hin⟩

lemma toInt_of_lt {n : ℕ} (h : n < 2 ^ 31) : toInt n = n :=
  toInt_of_inInt (by rw [InInt]; omega)

/-- The regions of the placed blocks, and that they stay in order when they fit. -/
lemma regions_of_placed (hg : ∀ e ∈ events, Placed events g e) (hacc : Accepted events) (f : ℕ) :
    let regions := ((blocksAfter events (f + 1)).map g).map fun r =>
      (toInt r.arg1.toNat, toInt r.arg2.toNat)
    regions = ((blocksAfter events (f + 1)).map fun e =>
        (toInt (viewAddress events e.arg1), toInt (viewAddress events e.arg2))) ∧
      (FitsInt events → (regions.Pairwise fun p q => p.1 < q.1) ∧
        regions = (blocksAfter events (f + 1)).map fun e =>
          ((viewAddress events e.arg1 : ℤ), (viewAddress events e.arg2 : ℤ))) := by
  have hmem : ∀ e ∈ blocksAfter events (f + 1), e ∈ events ∧ e.type = .MALLOC := by
    intro e he
    obtain ⟨i, hlive⟩ := (mem_blocksAfter hacc (f + 1) e).mp he
    exact ⟨List.mem_of_mem_take (List.mem_of_getElem? hlive.at_i), hlive.malloc⟩
  have hplain : (((blocksAfter events (f + 1)).map g).map fun r =>
      (toInt r.arg1.toNat, toInt r.arg2.toNat)) = (blocksAfter events (f + 1)).map fun e =>
        (toInt (viewAddress events e.arg1), toInt (viewAddress events e.arg2)) := by
    rw [List.map_map]
    refine List.map_congr_left fun e he => ?_
    obtain ⟨he, hm⟩ := hmem e he
    rw [Function.comp_apply, (hg e he).arg1_eq, (hg e he).arg2_eq hm]
  refine ⟨hplain, fun hfit => ?_⟩
  have hexact : ((blocksAfter events (f + 1)).map fun e =>
      (toInt (viewAddress events e.arg1), toInt (viewAddress events e.arg2)))
        = (blocksAfter events (f + 1)).map fun e =>
          ((viewAddress events e.arg1 : ℤ), (viewAddress events e.arg2 : ℤ)) := by
    refine List.map_congr_left fun e he => ?_
    obtain ⟨he, hm⟩ := hmem e he
    rw [toInt_of_lt (hfit e he).1, toInt_of_lt ((hfit e he).2 hm)]
  refine ⟨?_, hplain.trans hexact⟩
  rw [hplain, hexact, List.pairwise_map]
  refine (blocksAfter_sorted hacc (f + 1)).imp_of_mem fun {p q} hp hq hlt => ?_
  show (viewAddress events p.arg1 : ℤ) < viewAddress events q.arg1
  rw [Int.ofNat_lt, viewAddress, viewAddress, mappedAddress, mappedAddress]
  exact compress_strictMono (by decide) (hg p (hmem p hp).1).arg1_inUse
    (UInt64.lt_iff_toNat_lt.mp hlt)

/-- What the handler answers over placed events is what it should answer. -/
lemma memStatusSpec_of_placed (hg : ∀ e ∈ events, Placed events g e) (hacc : Accepted events)
    (f w : ℕ) : MemStatusSpec events f w
      { regions := ((blocksAfter events (f + 1)).map g).map fun r =>
          (toInt r.arg1.toNat, toInt r.arg2.toNat)
        events := ((shownAccesses events f w).map g).map accessLetter
        addr := ((shownAccesses events f w).map g).map fun e => toInt e.arg1.toNat
        mask := ((shownAccesses events f w).map g).map
          (validIn ((blocksAfter events (f + 1)).map g)) } := by
  have hshown : ∀ e ∈ shownAccesses events f w, e ∈ events := fun e => mem_of_mem_shownAccesses
  have hplain : ((shownAccesses events f w).map g).map (fun e => toInt e.arg1.toNat)
      = (shownAccesses events f w).map fun e => toInt (viewAddress events e.arg1) := by
    rw [List.map_map]
    refine List.map_congr_left fun e he => ?_
    rw [Function.comp_apply, (hg e (hshown e he)).arg1_eq]
  have hregions := regions_of_placed hg hacc f
  constructor
  · show ((shownAccesses events f w).map g).map accessLetter = _
    rw [List.map_map]
    refine List.map_congr_left fun e he => ?_
    rw [Function.comp_apply, accessLetter, accessLetter, (hg e (hshown e he)).type_eq]
  · exact hplain
  · show List.Forall₂ _ _ (((shownAccesses events f w).map g).map _)
    rw [List.forall₂_map_right_iff, List.forall₂_map_right_iff, List.forall₂_same]
    exact fun e he => valid_iff hg hacc f (hshown e he)
  · simp only [List.length_map, and_self, and_true]
    rw [shownAccesses, List.length_take, List.length_reverse, List.countP_eq_length_filter]
  · exact ⟨blocksAfter events (f + 1), mem_blocksAfter hacc (f + 1),
      blocksAfter_sorted hacc (f + 1), hregions⟩
  · intro hfit
    show ((shownAccesses events f w).map g).map (fun e => toInt e.arg1.toNat) = _
    rw [hplain]
    refine List.map_congr_left fun e he => ?_
    rw [toInt_of_lt (hfit e (hshown e he)).1]

/-- **The answer of `/f/mem_status`.**  For a trace that the loader accepts, every frame in range
and every window, the handler answers.  The accesses are the last ones up to the frame, newest
first, each with its place in the compressed view and with whether a block is live there; the
regions are the blocks that are live after the frame, in ascending order. -/
theorem f_mem_status_spec {p : Parsed} {t : Trace} (hload : Trace.load p 1024 = .ok t)
    (hwf : ∀ e ∈ p.events, e.type = .MALLOC → e.arg1 ≤ e.arg2) (f : ℕ) (hf : f < p.events.length)
    (window : ℤ) :
    ∃ answer, f_mem_status t f window = .ok (some answer) ∧
      MemStatusSpec p.events f (toUnsigned window) answer := by
  obtain ⟨hacc, m, hm, himage, rfl⟩ := load_mapped hload
  have hwf' : WellFormed (mallocsOf p.events) := by
    intro q hq
    obtain ⟨e, he, rfl⟩ := List.mem_map.mp hq
    obtain ⟨he, htype⟩ := List.mem_filter.mp he
    exact hwf e he (by simpa using htype)
  have hg : ∀ e ∈ p.events, Placed p.events (mapEvent m) e :=
    fun e he => placed_of_remapEvent hwf' hm (himage e he)
  refine ⟨_, f_mem_status_eq (by simpa using hf) (snapshots_getElem? hf) window, ?_⟩
  simp only [shownAccesses_map hg, pointees_map]
  exact memStatusSpec_of_placed hg hacc f (toUnsigned window)

end Answer

/-- Two blocks that touch, a read at the border, and a free of the second. -/
def touchingBlocks : Parsed where
  okay := true
  locations := []
  contexts := fun _ => some []
  events :=
    [⟨0, .MALLOC, 0x1010, 0x1020, []⟩, ⟨1, .MALLOC, 0x1020, 0x1030, []⟩,
      ⟨2, .READ, 0x1020, 0, []⟩, ⟨3, .FREE, 0x1020, 0, []⟩, ⟨4, .WRITE, 0x1018, 0, []⟩]

lemma touchingBlocks_load : ∃ t, Trace.load touchingBlocks 1024 = .ok t :=
  load_returns_iff.mpr
    ⟨by decide, by decide, by decide, countersFit_of_length (by decide), by decide⟩

theorem touchingBlocks_mem_status : ∃ t, Trace.load touchingBlocks 1024 = .ok t ∧
    ∃ answer, f_mem_status t (4 : ℕ) 7 = .ok (some answer) ∧
      MemStatusSpec touchingBlocks.events 4 7 answer := by
  obtain ⟨t, ht⟩ := touchingBlocks_load
  exact ⟨t, ht, f_mem_status_spec ht (by decide) 4 (by decide) 7⟩

end PerVERT
