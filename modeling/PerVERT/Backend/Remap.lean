import PerVERT.Backend.Regions
import PerVERT.Core.LineRank

/-!
# `Trace::remapAddresses`, second half: laying the regions out

The merged regions are laid out one after the other in a compressed address space, at the offsets
they had in their cache lines, and every event is rewritten to its image.

* `placeRegion`, `layoutRegions`, `remapAddress`, `addressMap`, `Trace.remapAddresses` — as the
  code computes them, in `uint64_t` arithmetic.
* `placeRegion_spec` — one round of the layout loop moves the mapped end and the offset of the
  region to their places under `compress` (`Core/LineRank.lean`).  The unsigned arithmetic wraps
  in between; the results do not.
* **`addressMap_place`**, **`addressMap_spec`** — hence the map sends every address of the regions,
  and of the union, to its place; **`addressMap_returns_iff`** — when there is a map.
* **`remapAddresses_lineLayout`** — what that says about the lines and the offsets of a trace.
-/

namespace PerVERT

/-! ## The loop -/

/-- The variables of the layout loop. -/
structure LayoutState where
  /-- End of the previous region in original space. -/
  lastEndO : UInt64
  /-- End of the previous region in mapped space. -/
  maxAddress : UInt64
  offsets : Std.TreeMap UInt64 UInt64

/-- The body of the layout loop. -/
def placeRegion (cacheLine : UInt64) (st : LayoutState) (region : UInt64 × UInt64) : LayoutState :=
  let beginO := region.1
  let endO := region.2
  let delta := beginO - st.lastEndO
  let offsetO := beginO % cacheLine
  let lastEndOffsetO := st.lastEndO % cacheLine
  -- was this region on the same line as the previous in original space?
  let padding :=
    if lastEndOffsetO ≤ offsetO ∧ delta < cacheLine then delta
    else cacheLine + offsetO - lastEndOffsetO
  { lastEndO := endO
    maxAddress := st.maxAddress + padding + endO - beginO
    offsets := st.offsets.insert beginO (st.maxAddress + padding) }

/-- The layout loop.  `(*mergedRegions.begin()).first` needs a region to read, and `%` a line
size other than zero. -/
def layoutRegions (cacheLine : UInt64) (merged : List (UInt64 × UInt64)) : Checked LayoutState :=
  match merged with
  | [] => .error .emptyContainer
  | first :: _ =>
      if cacheLine = 0 then .error .divisionByZero
      else .ok (merged.foldl (placeRegion cacheLine) ⟨first.1, first.1 % cacheLine, {}⟩)

/-- `remapAddress`. -/
def remapAddress (address : UInt64) (regions offsets : Std.TreeMap UInt64 UInt64) :
    Checked UInt64 :=
  match regions.toList.find? fun r => r.1 ≤ address ∧ address ≤ r.2 with
  | some r => .ok (address - r.1 + offsets.getD r.1 0)
  | none => .error (.assertion "Control should never reach here!")

/-- What the rewriting loop works with. -/
structure AddressMap where
  regions : Std.TreeMap UInt64 UInt64
  offsets : Std.TreeMap UInt64 UInt64
  maxAddress : UInt64

/-- Everything `remapAddresses` computes before it rewrites the events. -/
def addressMap (cacheLine : UInt64) (mallocs : List (UInt64 × UInt64)) : Checked AddressMap := do
  let regions ← mergedRegions mallocs
  let layout ← layoutRegions cacheLine regions.toList
  pure ⟨regions, layout.offsets, layout.maxAddress⟩

/-- The body of the rewriting loop. -/
def remapEvent (m : AddressMap) (e : Event) : Checked Event := do
  let arg1 ← remapAddress e.arg1 m.regions m.offsets
  if e.type = .MALLOC then
    let arg2 ← remapAddress e.arg2 m.regions m.offsets
    pure { e with arg1, arg2 }
  else
    pure { e with arg1 }

/-- `Trace::remapAddresses`. -/
def Trace.remapAddresses (t : Trace) : Checked Trace := do
  let m ← addressMap t.cacheLine t.mallocIntervals
  let events ← t.events.mapM (remapEvent m)
  pure { t with events, maxAddress := m.maxAddress }

/-! ## Addresses in use -/

/-- The address `x` lies in one of the closed intervals. -/
def InUse (ivs : List (UInt64 × UInt64)) (x : ℕ) : Prop :=
  Covered (ivs.map fun p => (p.1.toNat, p.2.toNat)) x

lemma inUse_iff {ivs : List (UInt64 × UInt64)} {x : ℕ} :
    InUse ivs x ↔ ∃ p ∈ ivs, p.1.toNat ≤ x ∧ x ≤ p.2.toNat := by
  simp [InUse, Covered]

lemma inUse_cons {p : UInt64 × UInt64} {ivs : List (UInt64 × UInt64)} {x : ℕ} :
    InUse (p :: ivs) x ↔ (p.1.toNat ≤ x ∧ x ≤ p.2.toNat) ∨ InUse ivs x := by
  simp [inUse_iff]

lemma inUse_toNat {ivs : List (UInt64 × UInt64)} {a : UInt64} :
    InUse ivs a.toNat ↔ Covered ivs a := by
  simp only [inUse_iff, Covered, UInt64.le_iff_toNat_le]

lemma inUse_congr {ivs ivs' : List (UInt64 × UInt64)}
    (h : ∀ a, Covered ivs a ↔ Covered ivs' a) (x : ℕ) : InUse ivs x ↔ InUse ivs' x := by
  rcases Nat.lt_or_ge x (2 ^ 64) with hx | hx
  · have hx' : (UInt64.ofNat x).toNat = x := UInt64.toNat_ofNat_of_lt' hx
    rw [← hx', inUse_toNat, inUse_toNat, h]
  · have hnot : ∀ l : List (UInt64 × UInt64), ¬ InUse l x := by
      intro l hl
      obtain ⟨p, -, -, hp⟩ := inUse_iff.mp hl
      have := p.2.toNat_lt
      omega
    exact iff_of_false (hnot _) (hnot _)

/-! ## One round of the layout loop -/

section Layout

variable {cacheLine : UInt64} {cov : ℕ → Prop}

/-- **One round.**  When the mapped end is where `compress` puts the previous end, the round puts
the region's begin and end where `compress` puts them.  `maxAddress + padding + endO` may pass
`2 ^ 64`; the subtraction that follows brings it back. -/
lemma placeRegion_spec (h0 : 0 < cacheLine.toNat) (hL : cacheLine.toNat ≤ 2 ^ 63)
    {st : LayoutState} {region : UInt64 × UInt64} (hlast : cov st.lastEndO.toNat)
    (hle : st.lastEndO.toNat ≤ region.1.toNat)
    (hgap : ∀ x, st.lastEndO.toNat < x → x < region.1.toNat → ¬ cov x)
    (hwf : region.1.toNat ≤ region.2.toNat)
    (hrun : ∀ x, region.1.toNat ≤ x → x ≤ region.2.toNat → cov x)
    (hmax : st.maxAddress.toNat = compress cacheLine.toNat cov st.lastEndO.toNat) :
    ∃ v : UInt64, v.toNat = compress cacheLine.toNat cov region.1.toNat ∧
      (placeRegion cacheLine st region).offsets = st.offsets.insert region.1 v ∧
      (placeRegion cacheLine st region).lastEndO = region.2 ∧
      (placeRegion cacheLine st region).maxAddress.toNat =
        compress cacheLine.toNat cov region.2.toNat := by
  obtain ⟨b, e⟩ := region
  dsimp only at *
  have hb64 := b.toNat_lt
  have he64 := e.toNat_lt
  have hbegin := compress_gap h0 hlast hle hgap
  have hend : compress cacheLine.toNat cov e.toNat
      = compress cacheLine.toNat cov b.toNat + (e.toNat - b.toNat) := by
    have := compress_add h0 (e.toNat - b.toNat) fun x h1 h2 => hrun x h1 (by omega)
    rwa [Nat.add_sub_cancel' hwf] at this
  have hb_le := compress_le cacheLine.toNat cov b.toNat
  -- the padding the code computes is the one of the library
  have hpad : (if st.lastEndO % cacheLine ≤ b % cacheLine ∧ b - st.lastEndO < cacheLine
      then b - st.lastEndO else cacheLine + b % cacheLine - st.lastEndO % cacheLine).toNat
      = padding cacheLine.toNat st.lastEndO.toNat b.toNat := by
    have hdelta : (b - st.lastEndO).toNat = b.toNat - st.lastEndO.toNat :=
      UInt64.toNat_sub_of_le _ _ (UInt64.le_iff_toNat_le.mpr hle)
    have h1 := Nat.mod_lt b.toNat h0
    have h2 := Nat.mod_lt st.lastEndO.toNat h0
    simp only [UInt64.le_iff_toNat_le, UInt64.lt_iff_toNat_lt, hdelta, UInt64.toNat_mod, padding]
    split_ifs
    · exact hdelta
    · rw [UInt64.toNat_sub, UInt64.toNat_add, UInt64.toNat_mod, UInt64.toNat_mod]
      omega
  refine ⟨st.maxAddress + (if st.lastEndO % cacheLine ≤ b % cacheLine ∧
    b - st.lastEndO < cacheLine then b - st.lastEndO
    else cacheLine + b % cacheLine - st.lastEndO % cacheLine), ?_, rfl, rfl, ?_⟩
  · rw [UInt64.toNat_add, hpad, hmax]
    omega
  · simp only [placeRegion]
    rw [UInt64.toNat_sub, UInt64.toNat_add, UInt64.toNat_add, hpad, hmax]
    omega

/-- What holds of the loop's variables after the regions `done`, when `cov` are the addresses in
use and `rest` the regions still to place. -/
structure LayoutInv (cacheLine : UInt64) (cov : ℕ → Prop) (done rest : List (UInt64 × UInt64))
    (st : LayoutState) : Prop where
  last_inUse : cov st.lastEndO.toNat
  beyond : ∀ x, st.lastEndO.toNat < x → cov x → InUse rest x
  before : ∀ r ∈ rest, st.lastEndO.toNat ≤ r.1.toNat
  max_eq : st.maxAddress.toNat = compress cacheLine.toNat cov st.lastEndO.toNat
  offset_eq : ∀ r ∈ done, ∃ v, st.offsets[r.1]? = some v ∧
    v.toNat = compress cacheLine.toNat cov r.1.toNat

lemma LayoutInv.step (h0 : 0 < cacheLine.toNat) (hL : cacheLine.toNat ≤ 2 ^ 63)
    {done rest : List (UInt64 × UInt64)} {region : UInt64 × UInt64} {st : LayoutState}
    (h : LayoutInv cacheLine cov done (region :: rest) st) (hsep : Separated (region :: rest))
    (hrun : ∀ x, region.1.toNat ≤ x → x ≤ region.2.toNat → cov x) :
    LayoutInv cacheLine cov (region :: done) rest (placeRegion cacheLine st region) := by
  obtain ⟨hwf, hlt, -⟩ := separated_cons.mp hsep
  rw [UInt64.le_iff_toNat_le] at hwf
  have hlt' : ∀ r ∈ rest, region.2.toNat < r.1.toNat :=
    fun r hr => UInt64.lt_iff_toNat_lt.mp (hlt r hr)
  have hgap : ∀ x, st.lastEndO.toNat < x → x < region.1.toNat → ¬ cov x := by
    intro x h1 h2 hx
    rcases inUse_cons.mp (h.beyond x h1 hx) with hhead | htail
    · omega
    · obtain ⟨r, hr, hrx, -⟩ := inUse_iff.mp htail
      have := hlt' r hr
      omega
  obtain ⟨v, hv, hoff, hend, hmax⟩ := placeRegion_spec h0 hL h.last_inUse
    (h.before region (by simp)) hgap hwf hrun h.max_eq
  constructor
  · rw [hend]; exact hrun _ hwf (le_refl _)
  · intro x hx hc
    rw [hend] at hx
    have hbefore := h.before region (by simp)
    rcases inUse_cons.mp (h.beyond x (by omega) hc) with hhead | htail
    · omega
    · exact htail
  · intro r hr
    rw [hend]; exact le_of_lt (hlt' r hr)
  · rw [hend]; exact hmax
  · intro r hr
    rw [hoff, Std.TreeMap.getElem?_insert]
    by_cases heq : region.1 = r.1
    · exact ⟨v, by simp [heq], heq ▸ hv⟩
    · rcases List.mem_cons.mp hr with rfl | hr
      · exact absurd rfl heq
      · simpa [heq] using h.offset_eq r hr

lemma LayoutInv.foldl (h0 : 0 < cacheLine.toNat) (hL : cacheLine.toNat ≤ 2 ^ 63) :
    ∀ {rest done : List (UInt64 × UInt64)} {st : LayoutState},
    LayoutInv cacheLine cov done rest st → Separated rest →
    (∀ r ∈ rest, ∀ x, r.1.toNat ≤ x → x ≤ r.2.toNat → cov x) →
    LayoutInv cacheLine cov (rest.reverse ++ done) [] (rest.foldl (placeRegion cacheLine) st)
  | [], _, _, h, _, _ => h
  | region :: rest, done, st, h, hsep, hrun => by
      have hstep := h.step h0 hL hsep (hrun region (by simp))
      have := LayoutInv.foldl h0 hL hstep (separated_cons.mp hsep).2.2
        fun r hr => hrun r (by simp [hr])
      simpa using this

/-- The invariant holds after the loop, over all regions. -/
lemma layoutRegions_spec (h0 : 0 < cacheLine.toNat) (hL : cacheLine.toNat ≤ 2 ^ 63)
    {merged : List (UInt64 × UInt64)} {st : LayoutState} (hsep : Separated merged)
    (hcov : ∀ x, cov x ↔ InUse merged x) (h : layoutRegions cacheLine merged = .ok st) :
    LayoutInv cacheLine cov merged.reverse [] st := by
  match merged, h with
  | first :: rest, h =>
      unfold layoutRegions at h
      split_ifs at h
      cases Except.ok.inj h
      obtain ⟨hwf, hlt, -⟩ := separated_cons.mp hsep
      rw [UInt64.le_iff_toNat_le] at hwf
      have hfirst_le : ∀ r ∈ first :: rest, first.1.toNat ≤ r.1.toNat := by
        intro r hr
        rcases List.mem_cons.mp hr with rfl | hr
        · exact le_refl _
        · have := UInt64.lt_iff_toNat_lt.mp (hlt r hr)
          omega
      have hinit : LayoutInv cacheLine cov [] (first :: rest)
          ⟨first.1, first.1 % cacheLine, {}⟩ := by
        constructor
        · exact (hcov _).mpr (inUse_iff.mpr ⟨first, by simp, le_refl _, hwf⟩)
        · exact fun x _ hx => (hcov x).mp hx
        · exact hfirst_le
        · rw [UInt64.toNat_mod, compress_first]
          intro x hx hc
          obtain ⟨r, hr, hrx, -⟩ := inUse_iff.mp ((hcov x).mp hc)
          have := hfirst_le r hr
          dsimp only at hx
          omega
        · simp
      have hrun : ∀ r ∈ first :: rest, ∀ x, r.1.toNat ≤ x → x ≤ r.2.toNat → cov x :=
        fun r hr x h1 h2 => (hcov x).mpr (inUse_iff.mpr ⟨r, hr, h1, h2⟩)
      simpa using LayoutInv.foldl h0 hL hinit hsep hrun

end Layout

/-! ## The address map -/

section AddressMap

variable {cacheLine : UInt64} {mallocs : List (UInt64 × UInt64)} {m : AddressMap}

/-- The place `compress` gives an address among the intervals of `mallocs`. -/
noncomputable def mappedAddress (cacheLine : UInt64) (mallocs : List (UInt64 × UInt64))
    (a : UInt64) : ℕ :=
  compress cacheLine.toNat (InUse mallocs) a.toNat

lemma covered_of_remapAddress {a a' : UInt64} {regions offsets : Std.TreeMap UInt64 UInt64}
    (h : remapAddress a regions offsets = .ok a') : Covered regions.toList a := by
  rw [remapAddress] at h
  split at h
  · next r hr =>
      have hin := List.find?_some hr
      exact ⟨r, List.mem_of_find?_eq_some hr, by simpa using hin⟩
  · cases h

/-- An address of the merged regions is found in one of them, first in their order. -/
lemma remapAddress_of_covered {a : UInt64} {regions : Std.TreeMap UInt64 UInt64}
    (h : Covered regions.toList a) : ∃ r ∈ regions.toList, r.1 ≤ a ∧ a ≤ r.2 ∧
      ∀ offsets, remapAddress a regions offsets = .ok (a - r.1 + offsets.getD r.1 0) := by
  obtain ⟨r, hr⟩ : ∃ r, regions.toList.find? (fun r => r.1 ≤ a ∧ a ≤ r.2) = some r := by
    obtain ⟨r, hr, hra⟩ := h
    exact Option.isSome_iff_exists.mp (List.find?_isSome.mpr ⟨r, hr, by simpa using hra⟩)
  have hin : r.1 ≤ a ∧ a ≤ r.2 := by simpa using List.find?_some hr
  refine ⟨r, List.mem_of_find?_eq_some hr, hin.1, hin.2, fun offsets => ?_⟩
  simp only [remapAddress, hr]

lemma remapAddress_returns_iff {a : UInt64} {regions offsets : Std.TreeMap UInt64 UInt64} :
    (∃ a', remapAddress a regions offsets = .ok a') ↔ Covered regions.toList a := by
  constructor
  · rintro ⟨a', h⟩
    exact covered_of_remapAddress h
  · intro h
    obtain ⟨r, -, -, -, hok⟩ := remapAddress_of_covered h
    exact ⟨_, hok offsets⟩

/-- What the two halves leave: merged regions, all of them laid out. -/
lemma addressMap_inv (h0 : 0 < cacheLine.toNat) (hL : cacheLine.toNat ≤ 2 ^ 63)
    (h : addressMap cacheLine mallocs = .ok m) :
    mergedRegions mallocs = .ok m.regions ∧
      ∃ lastEndO, LayoutInv cacheLine (InUse m.regions.toList) m.regions.toList.reverse []
        ⟨lastEndO, m.maxAddress, m.offsets⟩ := by
  obtain ⟨regions, hregions, h⟩ := checked_bind_eq_ok.mp h
  obtain ⟨layout, hlayout, h⟩ := checked_bind_eq_ok.mp h
  cases Except.ok.inj h
  exact ⟨hregions, layout.lastEndO,
    layoutRegions_spec h0 hL (mergedRegions_spanned hregions).1 (fun _ => Iff.rfl) hlayout⟩

/-- **Every address of the regions goes to its place among them.** -/
theorem addressMap_place (h0 : 0 < cacheLine.toNat) (hL : cacheLine.toNat ≤ 2 ^ 63)
    (h : addressMap cacheLine mallocs = .ok m) {a : UInt64} (ha : Covered m.regions.toList a) :
    ∃ a', remapAddress a m.regions m.offsets = .ok a' ∧
      a'.toNat = compress cacheLine.toNat (InUse m.regions.toList) a.toNat := by
  obtain ⟨-, lastEndO, hinv⟩ := addressMap_inv h0 hL h
  obtain ⟨r, hmem, hle, hge, hok⟩ := remapAddress_of_covered ha
  obtain ⟨v, hv, hv'⟩ := hinv.offset_eq r (by simpa using hmem)
  refine ⟨a - r.1 + v, ?_, ?_⟩
  · rw [hok, Std.TreeMap.getD_eq_getD_getElem?, hv, Option.getD_some]
  · have hra := UInt64.le_iff_toNat_le.mp hle
    have har := UInt64.le_iff_toNat_le.mp hge
    have hrun := @compress_add cacheLine.toNat (InUse m.regions.toList) h0 _
      (a.toNat - r.1.toNat) fun x h1 h2 => inUse_iff.mpr ⟨r, hmem, h1, by omega⟩
    rw [Nat.add_sub_cancel' hra] at hrun
    have hplace := compress_le cacheLine.toNat (InUse m.regions.toList) a.toNat
    have ha64 := a.toNat_lt
    rw [UInt64.toNat_add, UInt64.toNat_sub_of_le _ _ hle, hv', hrun]
    omega

/-- Without inverted MALLOCs the addresses in use are those of the MALLOCs. -/
lemma inUse_regions (h0 : 0 < cacheLine.toNat) (hL : cacheLine.toNat ≤ 2 ^ 63)
    (hwf : WellFormed mallocs) (h : addressMap cacheLine mallocs = .ok m) :
    (∀ a, Covered m.regions.toList a ↔ Covered mallocs a) ∧
      InUse m.regions.toList = InUse mallocs := by
  have hcov := (mergedRegions_spec (addressMap_inv h0 hL h).1 hwf).2.1
  exact ⟨hcov, funext fun x => propext (inUse_congr hcov x)⟩

/-- **Every address of the union goes to its place.** -/
theorem addressMap_spec (h0 : 0 < cacheLine.toNat) (hL : cacheLine.toNat ≤ 2 ^ 63)
    (hwf : WellFormed mallocs) (h : addressMap cacheLine mallocs = .ok m) {a : UInt64}
    (ha : Covered mallocs a) :
    ∃ a', remapAddress a m.regions m.offsets = .ok a' ∧
      a'.toNat = mappedAddress cacheLine mallocs a := by
  obtain ⟨hcov, hinUse⟩ := inUse_regions h0 hL hwf h
  rw [mappedAddress, ← hinUse]
  exact addressMap_place h0 hL h ((hcov a).mpr ha)

/-- The converse: an address that is remapped lies in the union, and so goes to its place. -/
lemma place_of_remapAddress (h0 : 0 < cacheLine.toNat) (hL : cacheLine.toNat ≤ 2 ^ 63)
    (hwf : WellFormed mallocs) (h : addressMap cacheLine mallocs = .ok m) {a a' : UInt64}
    (ha : remapAddress a m.regions m.offsets = .ok a') :
    InUse mallocs a.toNat ∧ a'.toNat = mappedAddress cacheLine mallocs a := by
  have hcov := ((inUse_regions h0 hL hwf h).1 a).mp (covered_of_remapAddress ha)
  obtain ⟨a'', ha'', hplace⟩ := addressMap_spec h0 hL hwf h hcov
  rw [ha] at ha''
  cases Except.ok.inj ha''
  exact ⟨inUse_toNat.mpr hcov, hplace⟩

/-- The maximum address is the place of the greatest end. -/
theorem addressMap_maxAddress (h0 : 0 < cacheLine.toNat) (hL : cacheLine.toNat ≤ 2 ^ 63)
    (hwf : WellFormed mallocs) (h : addressMap cacheLine mallocs = .ok m) {p : UInt64 × UInt64}
    (hp : p ∈ mallocs) (hmax : ∀ q ∈ mallocs, q.2 ≤ p.2) :
    m.maxAddress.toNat = mappedAddress cacheLine mallocs p.2 := by
  obtain ⟨-, lastEndO, hinv⟩ := addressMap_inv h0 hL h
  rw [(inUse_regions h0 hL hwf h).2] at hinv
  -- the last end is in use and nothing is in use beyond it, so it is the greatest end
  have hlast : lastEndO.toNat = p.2.toNat := by
    apply le_antisymm
    · obtain ⟨q, hq, -, hqe⟩ := inUse_iff.mp hinv.last_inUse
      exact le_trans hqe (UInt64.le_iff_toNat_le.mp (hmax q hq))
    · by_contra hlt
      have huse : InUse mallocs p.2.toNat :=
        inUse_toNat.mpr ⟨p, hp, hwf p hp, le_refl _⟩
      have := hinv.beyond p.2.toNat (Nat.lt_of_not_le hlt) huse
      simp [inUse_iff] at this
  rw [mappedAddress, ← hlast]
  exact hinv.max_eq

/-- **When the map is computed.**  There has to be a line size and a MALLOC, and no counter may
overflow. -/
theorem addressMap_returns_iff : (∃ m, addressMap cacheLine mallocs = .ok m) ↔
    cacheLine ≠ 0 ∧ mallocs ≠ [] ∧ CountersFit mallocs := by
  constructor
  · rintro ⟨m, h⟩
    obtain ⟨regions, hregions, h⟩ := checked_bind_eq_ok.mp h
    obtain ⟨layout, hlayout, -⟩ := checked_bind_eq_ok.mp h
    refine ⟨?_, ?_, mergedRegions_returns_iff.mp ⟨regions, hregions⟩⟩
    · rintro rfl
      unfold layoutRegions at hlayout
      split at hlayout
      · cases hlayout
      · rw [if_pos rfl] at hlayout
        cases hlayout
    · rintro rfl
      cases Except.ok.inj hregions
      cases hlayout
  · rintro ⟨h0, hne, hfits⟩
    obtain ⟨regions, hregions⟩ := mergedRegions_returns_iff.mpr hfits
    obtain ⟨p, hp⟩ := List.exists_mem_of_ne_nil mallocs hne
    have hcov := ((mergedRegions_spanned hregions).2 p.1).mpr (Or.inl ⟨p, hp, Or.inl rfl⟩)
    obtain ⟨layout, hlayout⟩ : ∃ st, layoutRegions cacheLine regions.toList = .ok st := by
      unfold layoutRegions
      split
      · next hnil => rw [hnil] at hcov; exact absurd hcov (covered_nil _)
      · exact ⟨_, if_neg h0⟩
    exact ⟨_, checked_bind_eq_ok.mpr ⟨regions, hregions,
      checked_bind_eq_ok.mpr ⟨layout, hlayout, rfl⟩⟩⟩

lemma addressMap_spanned (h : addressMap cacheLine mallocs = .ok m) (a : UInt64) :
    Covered m.regions.toList a ↔ Spanned mallocs a := by
  obtain ⟨regions, hregions, h⟩ := checked_bind_eq_ok.mp h
  obtain ⟨layout, -, h⟩ := checked_bind_eq_ok.mp h
  cases Except.ok.inj h
  exact (mergedRegions_spanned hregions).2 a

end AddressMap

/-! ## The rewriting loop -/

section Rewrite

variable {t t' : Trace} {m : AddressMap} {e e' : Event}

lemma remapEvent_eq_ok : remapEvent m e = .ok e' ↔
    ∃ a₁, remapAddress e.arg1 m.regions m.offsets = .ok a₁ ∧
      if e.type = .MALLOC then
        ∃ a₂, remapAddress e.arg2 m.regions m.offsets = .ok a₂ ∧
          e' = { e with arg1 := a₁, arg2 := a₂ }
      else e' = { e with arg1 := a₁ } := by
  rw [remapEvent, checked_bind_eq_ok]
  refine exists_congr fun a₁ => and_congr_right fun _ => ?_
  split_ifs
  · rw [checked_bind_eq_ok]
    exact exists_congr fun a₂ => and_congr_right fun _ =>
      ⟨fun h => (Except.ok.inj h).symm, fun h => by rw [h]; rfl⟩
  · exact ⟨fun h => (Except.ok.inj h).symm, fun h => by rw [h]; rfl⟩

lemma remapEvent_fields (h : remapEvent m e = .ok e') :
    e'.index = e.index ∧ e'.type = e.type ∧ e'.context = e.context ∧
      remapAddress e.arg1 m.regions m.offsets = .ok e'.arg1 ∧
      (e.type = .MALLOC → remapAddress e.arg2 m.regions m.offsets = .ok e'.arg2) := by
  obtain ⟨a₁, h₁, h⟩ := remapEvent_eq_ok.mp h
  split_ifs at h with hm
  · obtain ⟨a₂, h₂, rfl⟩ := h
    exact ⟨rfl, rfl, rfl, h₁, fun _ => h₂⟩
  · subst h
    exact ⟨rfl, rfl, rfl, h₁, fun hm' => absurd hm' hm⟩

lemma remapAddresses_eq_ok : t.remapAddresses = .ok t' ↔
    ∃ m, addressMap t.cacheLine t.mallocIntervals = .ok m ∧
      ∃ events, List.Forall₂ (fun e e' => remapEvent m e = .ok e') t.events events ∧
        t' = { t with events, maxAddress := m.maxAddress } := by
  rw [Trace.remapAddresses, checked_bind_eq_ok]
  refine exists_congr fun m => and_congr_right fun _ => ?_
  rw [checked_bind_eq_ok]
  exact exists_congr fun events => and_congr checked_mapM_eq_ok
    ⟨fun h => (Except.ok.inj h).symm, fun h => by rw [h]; rfl⟩

/-- The addresses of an event lie in the union. -/
def Event.InIntervals (ivs : List (UInt64 × UInt64)) (e : Event) : Prop :=
  Covered ivs e.arg1 ∧ (e.type = .MALLOC → Covered ivs e.arg2)

instance (ivs : List (UInt64 × UInt64)) (e : Event) : Decidable (e.InIntervals ivs) :=
  inferInstanceAs (Decidable (_ ∧ (_ → _)))

end Rewrite

/-! ## Lines and offsets of a trace -/

section Lines

variable {t : Trace} {m : AddressMap}

/-- An event inside the union is rewritten, never asserted on. -/
lemma remapEvent_returns (h0 : 0 < t.cacheLine.toNat) (hL : t.cacheLine.toNat ≤ 2 ^ 63)
    (hwf : WellFormed t.mallocIntervals) (hm : addressMap t.cacheLine t.mallocIntervals = .ok m)
    {e : Event} (he : e.InIntervals t.mallocIntervals) : ∃ e', remapEvent m e = .ok e' := by
  obtain ⟨a₁, h₁, -⟩ := addressMap_spec h0 hL hwf hm he.1
  by_cases htype : e.type = .MALLOC
  · obtain ⟨a₂, h₂, -⟩ := addressMap_spec h0 hL hwf hm (he.2 htype)
    exact ⟨_, remapEvent_eq_ok.mpr ⟨a₁, h₁, by rw [if_pos htype]; exact ⟨a₂, h₂, rfl⟩⟩⟩
  · exact ⟨_, remapEvent_eq_ok.mpr ⟨a₁, h₁, by rw [if_neg htype]⟩⟩

/-- A trace all of whose addresses lie in the union is remapped. -/
lemma remapAddresses_returns (h0 : 0 < t.cacheLine.toNat) (hL : t.cacheLine.toNat ≤ 2 ^ 63)
    (hwf : WellFormed t.mallocIntervals) (hm : addressMap t.cacheLine t.mallocIntervals = .ok m)
    (he : ∀ e ∈ t.events, e.InIntervals t.mallocIntervals) :
    ∃ t', t.remapAddresses = .ok t' ∧ t'.maxAddress = m.maxAddress ∧
      List.Forall₂ (fun e e' => remapEvent m e = .ok e') t.events t'.events := by
  obtain ⟨events, hevents⟩ := checked_forall₂_returns_iff.mpr fun e h =>
    remapEvent_returns h0 hL hwf hm (he e h)
  exact ⟨_, remapAddresses_eq_ok.mpr ⟨m, hm, events, hevents, rfl⟩, rfl, hevents⟩

/-- What the compressed address space of a trace is meant to be.  `exact` gives the image of every
address in the closed interval of a MALLOC; the other fields are what the memory view relies
on. -/
structure LineLayout (t : Trace) (m : AddressMap) : Prop where
  /-- Same offset, on the line numbered by the lines in use below. -/
  exact : ∀ a, Covered t.mallocIntervals a → ∃ a', remapAddress a m.regions m.offsets = .ok a' ∧
    a'.toNat = t.cacheLine.toNat * lineRank t.cacheLine.toNat (InUse t.mallocIntervals) a.toNat
      + a.toNat % t.cacheLine.toNat
  strictMono : ∀ a b a' b', remapAddress a m.regions m.offsets = .ok a' →
    remapAddress b m.regions m.offsets = .ok b' → a < b → a' < b'
  offset : ∀ a a', remapAddress a m.regions m.offsets = .ok a' →
    a' % t.cacheLine = a % t.cacheLine
  line : ∀ a b a' b', remapAddress a m.regions m.offsets = .ok a' →
    remapAddress b m.regions m.offsets = .ok b' →
    (a' / t.cacheLine = b' / t.cacheLine ↔ a / t.cacheLine = b / t.cacheLine)
  /-- `maxAddress_` is the image of the greatest end. -/
  max : ∀ p ∈ t.mallocIntervals, (∀ q ∈ t.mallocIntervals, q.2 ≤ p.2) →
    remapAddress p.2 m.regions m.offsets = .ok m.maxAddress
  /-- When no event lies outside, all events are rewritten by the map. -/
  rewrites : (∀ e ∈ t.events, e.InIntervals t.mallocIntervals) →
    ∃ t', t.remapAddresses = .ok t' ∧ t'.maxAddress = m.maxAddress ∧
      List.Forall₂ (fun e e' => remapEvent m e = .ok e') t.events t'.events

/-- The layout follows from the place each address takes. -/
lemma lineLayout_of_addressMap (h0 : 0 < t.cacheLine.toNat) (hL : t.cacheLine.toNat ≤ 2 ^ 63)
    (hwf : WellFormed t.mallocIntervals) (hm : addressMap t.cacheLine t.mallocIntervals = .ok m) :
    LineLayout t m := by
  have hval : ∀ a a', remapAddress a m.regions m.offsets = .ok a' →
      InUse t.mallocIntervals a.toNat ∧
        a'.toNat = compress t.cacheLine.toNat (InUse t.mallocIntervals) a.toNat :=
    fun _ _ ha => place_of_remapAddress h0 hL hwf hm ha
  refine ⟨fun a ha => addressMap_spec h0 hL hwf hm ha, ?_, ?_, ?_, ?_,
    remapAddresses_returns h0 hL hwf hm⟩
  · intro a b a' b' ha hb hlt
    rw [UInt64.lt_iff_toNat_lt, (hval a a' ha).2, (hval b b' hb).2]
    exact compress_strictMono h0 (hval a a' ha).1 (UInt64.lt_iff_toNat_lt.mp hlt)
  · intro a a' ha
    rw [← UInt64.toNat_inj, UInt64.toNat_mod, UInt64.toNat_mod, (hval a a' ha).2]
    exact compress_mod _ _ _
  · intro a b a' b' ha hb
    rw [← UInt64.toNat_inj, ← UInt64.toNat_inj, UInt64.toNat_div, UInt64.toNat_div,
      UInt64.toNat_div, UInt64.toNat_div, (hval a a' ha).2, (hval b b' hb).2]
    exact compress_div_eq_iff h0 (hval a a' ha).1 (hval b b' hb).1
  · intro p hp hmax
    obtain ⟨a', ha', hv⟩ := addressMap_spec h0 hL hwf hm ⟨p, hp, hwf p hp, le_refl _⟩
    rw [ha', ← UInt64.toNat_inj.mp (hv.trans (addressMap_maxAddress h0 hL hwf hm hp hmax).symm)]

/-- **The compressed address space of a trace.**  With at least one MALLOC, fewer than `2 ^ 31` of
them, each with `begin ≤ end`, and a line size up to `2 ^ 63`, the address map is computed and is
the layout by lines: an address goes to its own offset on the line numbered by how many lines in use
lie below it.  So order and offsets are kept, lines stay apart, none is left empty in between, and
the maximum is the image of the greatest end. -/
theorem remapAddresses_lineLayout (t : Trace) (hne : t.mallocIntervals ≠ [])
    (hlen : t.mallocIntervals.length < 2 ^ 31) (hwf : ∀ p ∈ t.mallocIntervals, p.1 ≤ p.2)
    (h1 : 1 ≤ t.cacheLine.toNat) (hL : t.cacheLine.toNat ≤ 2 ^ 63) :
    ∃ m, addressMap t.cacheLine t.mallocIntervals = .ok m ∧ LineLayout t m := by
  have hsize : t.cacheLine ≠ 0 := fun h => by simp [h] at h1
  obtain ⟨m, hm⟩ := addressMap_returns_iff.mpr ⟨hsize, hne, countersFit_of_length hlen⟩
  exact ⟨m, hm, lineLayout_of_addressMap h1 hL hwf hm⟩

end Lines

/-- Two blocks a few lines apart, with a read at the end of the second. -/
def twoBlocks : Trace where
  okay := true
  locations := []
  contexts := fun _ => some []
  events :=
    [⟨0, .MALLOC, 0x1010, 0x1020, []⟩, ⟨1, .MALLOC, 0x5008, 0x5018, []⟩, ⟨2, .READ, 0x5017, 0, []⟩]
  byType
    | .MALLOC => [0, 1]
    | .READ => [2]
    | _ => []
  byContext := fun _ => [0, 1, 2]
  validRegions := [[0], [0, 1], [0, 1]]
  maxAddress := 0
  cacheLine := 1024

theorem twoBlocks_lineLayout :
    ∃ m, addressMap 1024 [(0x1010, 0x1020), (0x5008, 0x5018)] = .ok m ∧ LineLayout twoBlocks m :=
  remapAddresses_lineLayout twoBlocks (by decide) (by decide)
    (List.forall_mem_cons.mpr ⟨by decide, List.forall_mem_singleton.mpr (by decide)⟩)
    (by decide) (by decide)

end PerVERT
