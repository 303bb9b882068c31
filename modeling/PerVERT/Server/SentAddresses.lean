import PerVERT.Backend.ContextViews
import PerVERT.Frontend.MemMap

/-!
# The addresses in the answers

The loader keeps addresses in 64 bits; three handlers send them as `int`s.  The compressed address
space is as large as the lines that the blocks touch, so the conversion loses nothing just while
these are few enough.

* `AddressesExact t` — every address number in an answer is the 64-bit one.
* `maxAddress_place` — `maxAddress_` is the place of the last address in use, and
  `remapAddress_le_max` — every other address lies below.
* **`addressesExact_iff`** — nothing is lost just if no address of the blocks has `2 ^ 21` lines in
  use below its own.
-/

namespace PerVERT

/-! ## What is sent -/

/-- The events that the sampling loop takes. -/
def sampledEvents (delta : ℤ) : List Event → ℤ → List Event
  | [], _ => []
  | event :: rest, count =>
      if count.tmod delta = 0 then event :: sampledEvents delta rest (count + 1)
      else sampledEvents delta rest (count + 1)

/-- The events that the answer of `/f/context_events` tells, for the event of the frame. -/
def sentEvents (t : Trace) (event : Event) : List Event :=
  if event.isAccess then
    sampledEvents ((toInt (t.byContext event.context).length).tdiv 32 + 1)
      (contextEvents t event.context) 0
  else []

/-- No conversion changes an address. -/
structure AddressesExact (t : Trace) : Prop where
  max_addr : (f_counts t).max_addr = t.maxAddress.toNat
  mem_status : ∀ frame window answer, f_mem_status t frame window = .ok (some answer) →
    ∃ snapshot, vectorAt t.validRegions frame = .ok snapshot ∧
      answer.regions = ((pointees t.events snapshot).map fun r =>
        ((r.arg1.toNat : ℤ), (r.arg2.toNat : ℤ))) ∧
      answer.addr = (shownAccesses t.events frame.toNat (toUnsigned window)).map fun e =>
        (e.arg1.toNat : ℤ)
  context_events : ∀ frame answer, f_context_events t frame = .ok (some answer) →
    ∃ event, vectorAt t.events frame = .ok event ∧
      answer.events.map Prod.fst = (sentEvents t event).map fun e => (e.arg1.toNat : ℤ)

/-- The lines of the blocks can be numbered below `2 ^ 21`. -/
def LinesFit (mallocs : List (UInt64 × UInt64)) : Prop :=
  ∀ a, Spanned mallocs a → linesBelow mallocs a < 2 ^ 21

/-! ## The greatest address -/

section Places

variable {mallocs : List (UInt64 × UInt64)} {m : AddressMap} {a a' : UInt64}

/-- **The maximum address** is the place of the last address in use. -/
lemma maxAddress_place (hm : addressMap 1024 mallocs = .ok m) :
    ∃ last, Spanned mallocs last ∧ (∀ a, Spanned mallocs a → a ≤ last) ∧
      m.maxAddress.toNat = compress 1024 (SpannedAddress mallocs) last.toNat := by
  obtain ⟨-, last, hinv⟩ := addressMap_inv (by decide) (by decide) hm
  rw [inUse_eq_spannedAddress hm] at hinv
  obtain ⟨b, hb, hspanned⟩ := hinv.last_inUse
  obtain rfl : b = last := UInt64.toNat_inj.mp hb
  refine ⟨b, hspanned, fun a ha => ?_, hinv.max_eq⟩
  rw [UInt64.le_iff_toNat_le]
  by_contra hlt
  have hnone := hinv.beyond a.toNat (not_le.mp hlt) ⟨a, rfl, ha⟩
  simp [inUse_iff] at hnone

lemma spanned_place (hm : addressMap 1024 mallocs = .ok m)
    (ha : remapAddress a m.regions m.offsets = .ok a') :
    Spanned mallocs a ∧ a'.toNat = compress 1024 (SpannedAddress mallocs) a.toNat := by
  have hcovered := covered_of_remapAddress ha
  obtain ⟨a'', ha'', hplace⟩ := addressMap_place (by decide) (by decide) hm hcovered
  rw [ha] at ha''
  cases ha''
  rw [inUse_eq_spannedAddress hm] at hplace
  exact ⟨(addressMap_spanned hm a).mp hcovered, hplace⟩

lemma remapAddress_le_max (hm : addressMap 1024 mallocs = .ok m)
    (ha : remapAddress a m.regions m.offsets = .ok a') : a'.toNat ≤ m.maxAddress.toNat := by
  obtain ⟨hspanned, hplace⟩ := spanned_place hm ha
  obtain ⟨last, hlast, hmax, hplace'⟩ := maxAddress_place hm
  rw [hplace, hplace']
  exact (compress_le_iff (by decide) ⟨a, rfl, hspanned⟩ ⟨last, rfl, hlast⟩).mpr
    (UInt64.le_iff_toNat_le.mp (hmax a hspanned))

/-- **The lines and the maximum address.** -/
lemma linesFit_iff (hm : addressMap 1024 mallocs = .ok m) :
    LinesFit mallocs ↔ m.maxAddress.toNat < 2 ^ 31 := by
  have hlines : ∀ a : UInt64, linesBelow mallocs a < 2 ^ 21 ↔
      compress 1024 (SpannedAddress mallocs) a.toNat < 2 ^ 31 := by
    intro a
    rw [compress, ← linesBelow]
    omega
  obtain ⟨last, hlast, hmax, hplace⟩ := maxAddress_place hm
  rw [hplace, ← hlines]
  refine ⟨fun h => h last hlast, fun h a ha => ?_⟩
  rw [hlines] at h ⊢
  exact lt_of_le_of_lt ((compress_le_iff (by decide) ⟨a, rfl, ha⟩ ⟨last, rfl, hlast⟩).mpr
    (UInt64.le_iff_toNat_le.mp (hmax a ha))) h

end Places

/-! ## The answers -/

section Answers

variable {t : Trace}

/-- What the sampling loop returns is told of the events it takes. -/
lemma sampleLoop_eq_ok {delta : ℤ} : ∀ {es : List Event} {count : ℤ} {answer : List (ℤ × ℤ)},
    sampleLoop delta es count = .ok answer →
      answer = (sampledEvents delta es count).map fun e =>
        (toInt e.arg1.toNat, toInt e.index.toNat)
  | [], _, _, h => (Except.ok.inj h).symm
  | e :: es, count, answer, h => by
      rw [sampleLoop] at h
      obtain ⟨count', hcount, h⟩ := checked_bind_eq_ok.mp h
      obtain ⟨-, rfl⟩ := intAdd_eq_ok.mp hcount
      rw [sampledEvents]
      split_ifs at h ⊢ with hdelta htaken
      · obtain ⟨rest, hrest, h⟩ := checked_bind_eq_ok.mp h
        cases h
        rw [sampleLoop_eq_ok hrest, List.map_cons]
      · obtain ⟨rest, hrest, h⟩ := checked_bind_eq_ok.mp h
        cases h
        exact sampleLoop_eq_ok hrest

lemma mem_of_mem_sampledEvents {delta : ℤ} {e : Event} : ∀ {es : List Event} {count : ℤ},
    e ∈ sampledEvents delta es count → e ∈ es
  | x :: es, count, h => by
      rw [sampledEvents] at h
      split_ifs at h
      · rcases List.mem_cons.mp h with rfl | h
        · exact List.mem_cons_self
        · exact List.mem_cons_of_mem _ (mem_of_mem_sampledEvents h)
      · exact List.mem_cons_of_mem _ (mem_of_mem_sampledEvents h)

lemma mem_of_mem_sentEvents {e x : Event} (h : x ∈ sentEvents t e) : x ∈ t.events := by
  rw [sentEvents] at h
  split_ifs at h
  · exact mem_contextEvents (mem_of_mem_sampledEvents h)
  · cases h

/-- **What `/f/context_events` sends.** -/
lemma f_context_events_eq_some {frame : ℤ} {answer : ContextEvents}
    (h : f_context_events t frame = .ok (some answer)) :
    ∃ e, vectorAt t.events frame = .ok e ∧
      answer.events = (sentEvents t e).map fun x => (toInt x.arg1.toNat, toInt x.index.toNat) := by
  rw [f_context_events] at h
  split_ifs at h
  · cases h
  · obtain ⟨e, he, h⟩ := checked_bind_eq_ok.mp h
    obtain ⟨type, -, h⟩ := checked_bind_eq_ok.mp h
    refine ⟨e, he, ?_⟩
    rw [sentEvents]
    split_ifs at h ⊢ with haccess
    · obtain ⟨events, hevents, h⟩ := checked_bind_eq_ok.mp h
      cases h
      exact sampleLoop_eq_ok hevents
    · cases h
      rfl

/-- **What `/f/mem_status` sends**, for a frame with a snapshot. -/
lemma f_mem_status_eq_some {frame window : ℤ} {answer : MemStatus}
    (hsnapshots : t.validRegions.length = t.events.length)
    (h : f_mem_status t frame window = .ok (some answer)) :
    ∃ snapshot, vectorAt t.validRegions frame = .ok snapshot ∧
      answer.regions = ((pointees t.events snapshot).map fun r =>
        (toInt r.arg1.toNat, toInt r.arg2.toNat)) ∧
      answer.addr = (shownAccesses t.events frame.toNat (toUnsigned window)).map fun e =>
        toInt e.arg1.toNat := by
  obtain ⟨snapshot, hsnapshot⟩ : ∃ snapshot, vectorAt t.validRegions frame = .ok snapshot := by
    rw [f_mem_status] at h
    split_ifs at h
    · cases h
    · obtain ⟨snapshot, hsnapshot, -⟩ := checked_bind_eq_ok.mp h
      exact ⟨snapshot, hsnapshot⟩
  obtain ⟨h0, hget⟩ := vectorAt_eq_ok.mp hsnapshot
  have hf : frame.toNat < t.events.length := hsnapshots ▸ lt_of_getElem? hget
  rw [← Int.toNat_of_nonneg h0, f_mem_status_eq hf hget window] at h
  cases h
  exact ⟨snapshot, hsnapshot, rfl, rfl⟩

end Answers

/-! ## When they are exact -/

section Loaded

variable {p : Parsed} {t : Trace} {m : AddressMap}

/-- Every event is the image of one that was read, below the maximum address. -/
lemma arg1_le_max (hm : addressMap 1024 (mallocsOf p.events) = .ok m)
    (himage : ∀ e ∈ p.events, remapEvent m e = .ok (mapEvent m e)) {x : Event}
    (hx : x ∈ p.events.map (mapEvent m)) : x.arg1.toNat ≤ m.maxAddress.toNat := by
  obtain ⟨e, he, rfl⟩ := List.mem_map.mp hx
  exact remapAddress_le_max hm (remapEvent_fields (himage e he)).2.2.2.1

/-- So are both bounds of a block in a snapshot. -/
lemma block_le_max (hacc : Accepted p.events)
    (hm : addressMap 1024 (mallocsOf p.events) = .ok m)
    (himage : ∀ e ∈ p.events, remapEvent m e = .ok (mapEvent m e)) {n : ℕ} {x : Event}
    (hx : x ∈ (blocksAfter p.events n).map (mapEvent m)) :
    x.arg1.toNat ≤ m.maxAddress.toNat ∧ x.arg2.toNat ≤ m.maxAddress.toNat := by
  obtain ⟨e, he, rfl⟩ := List.mem_map.mp hx
  obtain ⟨i, hlive⟩ := (mem_blocksAfter hacc n e).mp he
  have hmem : e ∈ p.events := List.mem_of_mem_take (List.mem_of_getElem? hlive.at_i)
  obtain ⟨-, -, -, h₁, h₂⟩ := remapEvent_fields (himage e hmem)
  exact ⟨remapAddress_le_max hm h₁, remapAddress_le_max hm (h₂ hlive.malloc)⟩

/-- **Nothing is lost in the answers** just if the lines of the blocks are few enough: the addresses
in use can be numbered by `2 ^ 21` lines of 1024 bytes, which is what an `int` has room for.  Beyond
that some answer holds an address that was converted to another number, the maximum at the latest.
-/
theorem addressesExact_iff (hload : Trace.load p 1024 = .ok t) :
    AddressesExact t ↔ LinesFit (mallocsOf p.events) := by
  obtain ⟨hacc, m, hm, himage, rfl⟩ := load_mapped hload
  rw [linesFit_iff hm]
  constructor
  · intro h
    have hmax : toInt m.maxAddress.toNat = m.maxAddress.toNat := h.max_addr
    rw [toInt] at hmax
    omega
  · intro hsmall
    have hevents : ∀ x ∈ p.events.map (mapEvent m), toInt x.arg1.toNat = x.arg1.toNat :=
      fun x hx => toInt_of_lt (lt_of_le_of_lt (arg1_le_max hm himage hx) hsmall)
    refine ⟨toInt_of_lt hsmall, fun frame window answer h => ?_, fun frame answer h => ?_⟩
    · have hsnapshots : (snapshots p.events).length = (p.events.map (mapEvent m)).length := by
        simp [snapshots]
      obtain ⟨snapshot, hsnapshot, hregions, haddr⟩ := f_mem_status_eq_some hsnapshots h
      refine ⟨snapshot, hsnapshot, ?_, ?_⟩
      · obtain ⟨-, hget⟩ := vectorAt_eq_ok.mp hsnapshot
        have hf : frame.toNat < p.events.length := by
          simpa [indexedTrace, indexOf, snapshots] using lt_of_getElem? hget
        have hblocks : pointees (p.events.map (mapEvent m)) snapshot
            = (blocksAfter p.events (frame.toNat + 1)).map (mapEvent m) := by
          rw [pointees_map, blocksAfter]
          cases (snapshots_getElem? hf).symm.trans hget
          rfl
        rw [hregions]
        refine List.map_congr_left fun r hr => ?_
        have hle := block_le_max hacc hm himage (hblocks ▸ hr)
        rw [toInt_of_lt (lt_of_le_of_lt hle.1 hsmall),
          toInt_of_lt (lt_of_le_of_lt hle.2 hsmall)]
      · rw [haddr]
        exact List.map_congr_left fun e he => hevents e (mem_of_mem_shownAccesses he)
    · obtain ⟨event, hevent, hsent⟩ := f_context_events_eq_some h
      refine ⟨event, hevent, ?_⟩
      rw [hsent, List.map_map]
      refine List.map_congr_left fun e he => ?_
      rw [Function.comp_apply, hevents e (mem_of_mem_sentEvents he)]

end Loaded

/-- Addresses that are small before the remap are on few lines. -/
lemma linesFit_of_lt {mallocs : List (UInt64 × UInt64)}
    (h : ∀ a, Spanned mallocs a → a.toNat < 2 ^ 31) : LinesFit mallocs := by
  classical
  intro a ha
  have hle : linesBelow mallocs a ≤ a.toNat / 1024 := Nat.count_le _
  have := h a ha
  omega

theorem touchingBlocks_exact :
    ∃ t, Trace.load touchingBlocks 1024 = .ok t ∧ AddressesExact t := by
  obtain ⟨t, ht⟩ := touchingBlocks_load
  refine ⟨t, ht, (addressesExact_iff ht).mpr (linesFit_of_lt fun a ha => ?_)⟩
  obtain ⟨p, hp, -, hle⟩ := (spanned_iff_covered (by decide) a).mp ha
  have hall : (mallocsOf touchingBlocks.events).all (fun q => q.2 ≤ 0x1030) = true := by decide
  have hend : p.2 ≤ 0x1030 := of_decide_eq_true (List.all_eq_true.mp hall p hp)
  exact lt_of_le_of_lt (UInt64.le_iff_toNat_le.mp (le_trans hle hend)) (by decide)

/-- A block of three gigabytes. -/
theorem largeBlock_not_exact : ∃ t, Loaded t ∧ t.maxAddress = 0xc0000000 ∧
    (f_counts t).max_addr = -0x40000000 ∧ ¬ AddressesExact t := by
  obtain ⟨t, ht, hmax⟩ := @exists_loaded 10 ⟨'?', 0⟩ ⟨[], 0, 0⟩ (some goodLines)
    (some "M 0x100000000 0x1c0000000 0x10 0x11\nE \n".toList)
    (fun t => t.maxAddress = 0xc0000000) (by decide +kernel)
  have hmax' : t.maxAddress = 0xc0000000 := of_decide_eq_true hmax
  have hsent : (f_counts t).max_addr = -0x40000000 := by
    show toInt t.maxAddress.toNat = _
    rw [hmax']
    decide
  refine ⟨t, ht, hmax', hsent, fun h => ?_⟩
  have hexact := h.max_addr
  rw [hsent, hmax'] at hexact
  exact absurd hexact (by decide)

end PerVERT
