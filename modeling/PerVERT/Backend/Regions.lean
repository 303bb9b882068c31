import PerVERT.Backend.Trace
import PerVERT.Core.Components
import PerVERT.Core.Transition

/-!
# `Trace::remapAddresses`, first half: merging the MALLOC intervals

The loader counts begins and ends per address in a `map<uint64_t, int>` and sweeps over it.

* `countRegions`, `mergeLoop`, `mergedRegions` — the two loops as the code runs them, with the
  counters in `int`.
* `countRegions_spec` — the map holds every endpoint with its net count.
* `mergeLoop_toList` — the second loop is the sweep of `Core/Interval.lean`.
* **`mergedRegions_spec`** — hence the merged regions cover exactly the union of the intervals,
  are separated, and start and end where intervals do.
* **`mergedRegions_spanned`**, **`mergedRegions_returns_iff`** — what they cover for any MALLOCs at
  all, and when no counter overflows; fewer than `2 ^ 31` MALLOCs never do.
* **`mergedRegions_components`** — so these are merged, in any order, into the components.
-/

namespace PerVERT

/-! ## The loops -/

/-- `if (regions.find(k) == regions.end()) regions[k] = d; else regions[k] += d;` for `d = ±1`. -/
def bump (regions : Std.TreeMap UInt64 ℤ) (k : UInt64) (d : ℤ) :
    Checked (Std.TreeMap UInt64 ℤ) :=
  if k ∈ regions then do
    let c ← intAdd (regions.getD k 0) d
    pure (regions.insert k c)
  else
    pure (regions.insert k d)

/-- The loop over `byType_[Event::MALLOC]`. -/
def countRegions : List (UInt64 × UInt64) → Std.TreeMap UInt64 ℤ →
    Checked (Std.TreeMap UInt64 ℤ)
  | [], regions => pure regions
  | (b, e) :: rest, regions => do
      let regions ← bump regions b 1
      let regions ← bump regions e (-1)
      countRegions rest regions

/-- The loop over `regions`. -/
def mergeLoop : List (UInt64 × ℤ) → ℤ → UInt64 → Std.TreeMap UInt64 UInt64 →
    Checked (Std.TreeMap UInt64 UInt64)
  | [], _, _, merged => pure merged
  | (p, c) :: rest, nOpen, firstOpen, merged => do
      let firstOpen := if nOpen = 0 then p else firstOpen
      let nOpen ← intAdd nOpen c
      let merged := if nOpen = 0 then merged.insert firstOpen p else merged
      mergeLoop rest nOpen firstOpen merged

/-- `mergedRegions`. -/
def mergedRegions (mallocs : List (UInt64 × UInt64)) : Checked (Std.TreeMap UInt64 UInt64) := do
  let regions ← countRegions mallocs {}
  mergeLoop regions.toList 0 0 {}

/-! ## Counting -/

section Count

variable {regions regions' : Std.TreeMap UInt64 ℤ} {mallocs : List (UInt64 × UInt64)}

lemma bump_spec {k : UInt64} {d : ℤ} (h : bump regions k d = .ok regions') (x : UInt64) :
    regions'.getD x 0 = regions.getD x 0 + (if k = x then d else 0) ∧
      (x ∈ regions' ↔ x ∈ regions ∨ k = x) := by
  have hset : ∃ c, c = regions.getD k 0 + d ∧ regions' = regions.insert k c := by
    rw [bump] at h
    split_ifs at h with hk
    · obtain ⟨c, hc, hr⟩ := checked_bind_eq_ok.mp h
      exact ⟨c, (intAdd_eq_ok.mp hc).2, (Except.ok.inj hr).symm⟩
    · refine ⟨d, ?_, (Except.ok.inj h).symm⟩
      rw [Std.TreeMap.getD_eq_fallback hk, Int.zero_add]
  obtain ⟨c, rfl, rfl⟩ := hset
  rw [Std.TreeMap.getD_insert, Std.TreeMap.mem_insert]
  simp only [Std.LawfulEqOrd.compare_eq_iff_eq]
  by_cases hkx : k = x
  · subst hkx; simp
  · simp [hkx]

/-- Counting adds to every address its net count, and enters exactly the endpoints. -/
lemma countRegions_spec_of : ∀ {mallocs : List (UInt64 × UInt64)}
    {regions regions' : Std.TreeMap UInt64 ℤ}, countRegions mallocs regions = .ok regions' →
    ∀ x, regions'.getD x 0 = regions.getD x 0 + net mallocs x ∧
      (x ∈ regions' ↔ x ∈ regions ∨ IsEndpoint mallocs x)
  | [], _, _, h, x => by
      cases Except.ok.inj h
      simp [IsEndpoint]
  | (b, e) :: rest, regions, regions', h, x => by
      simp only [countRegions] at h
      obtain ⟨r₁, h₁, h⟩ := checked_bind_eq_ok.mp h
      obtain ⟨r₂, h₂, h⟩ := checked_bind_eq_ok.mp h
      obtain ⟨hb, hbm⟩ := bump_spec h₁ x
      obtain ⟨he, hem⟩ := bump_spec h₂ x
      obtain ⟨hr, hrm⟩ := countRegions_spec_of h x
      constructor
      · rw [hr, he, hb, net_cons]
        split_ifs <;> omega
      · rw [hrm, hem, hbm]
        simp only [IsEndpoint, List.mem_cons, exists_eq_or_imp, or_assoc]

/-- The map built from nothing lists the endpoints with their net counts. -/
lemma endpointTable_of_countRegions (h : countRegions mallocs {} = .ok regions) :
    EndpointTable mallocs regions.toList where
  sorted := toList_sorted regions
  net_eq := by
    intro e he
    have hget := (mem_toList_iff regions e).mp he
    have hnet := (countRegions_spec_of h e.1).1
    rw [Std.TreeMap.getD_eq_getD_getElem?, hget] at hnet
    simpa using hnet
  mem_iff := by
    intro x
    rw [Std.TreeMap.map_fst_toList_eq_keys, Std.TreeMap.mem_keys, (countRegions_spec_of h x).2]
    simp

lemma bump_returns_iff {k : UInt64} {d : ℤ} (hd : InInt d) :
    (∃ regions', bump regions k d = .ok regions') ↔ InInt (regions.getD k 0 + d) := by
  rw [bump]
  split_ifs with hk
  · constructor
    · rintro ⟨regions', h⟩
      obtain ⟨c, hc, -⟩ := checked_bind_eq_ok.mp h
      exact (intAdd_eq_ok.mp hc).1
    · exact fun h => ⟨_, checked_bind_eq_ok.mpr ⟨_, intAdd_eq_ok.mpr ⟨h, rfl⟩, rfl⟩⟩
  · rw [Std.TreeMap.getD_eq_fallback hk, Int.zero_add]
    exact ⟨fun _ => hd, fun _ => ⟨_, rfl⟩⟩

/-- The counters of a MALLOC survive it, after the ones before. -/
def CountFits (before : List (UInt64 × UInt64)) (p : UInt64 × UInt64) : Prop :=
  InInt (net before p.1 + 1) ∧ InInt (net before p.2 + (if p.1 = p.2 then 1 else 0) - 1)

instance (before : List (UInt64 × UInt64)) (p : UInt64 × UInt64) :
    Decidable (CountFits before p) :=
  inferInstanceAs (Decidable (_ ∧ _))

lemma countRegions_append (p : UInt64 × UInt64) : ∀ (mallocs : List (UInt64 × UInt64))
    (regions : Std.TreeMap UInt64 ℤ), countRegions (mallocs ++ [p]) regions
      = countRegions mallocs regions >>= fun r => bump r p.1 1 >>= fun r => bump r p.2 (-1)
  | [], regions => by
      show (bump regions p.1 1 >>= fun r => bump r p.2 (-1) >>= pure) = _
      simp only [bind_pure]
      rfl
  | (b, e) :: mallocs, regions => by
      rw [List.cons_append, countRegions, countRegions]
      simp only [bind_assoc, countRegions_append p mallocs]

/-- Counting returns just if every counter stays an `int`. -/
lemma countRegions_returns_iff {mallocs : List (UInt64 × UInt64)} :
    (∃ regions, countRegions mallocs {} = .ok regions) ↔ EachStep CountFits mallocs := by
  induction mallocs using List.reverseRecOn with
  | nil => exact ⟨fun _ => EachStep.nil, fun _ => ⟨{}, rfl⟩⟩
  | append_singleton mallocs p ih =>
      rw [eachStep_append, ← ih, countRegions_append]
      have hcount : ∀ {r r₁ : Std.TreeMap UInt64 ℤ}, countRegions mallocs {} = .ok r →
          bump r p.1 1 = .ok r₁ → r₁.getD p.2 0 = net mallocs p.2 + if p.1 = p.2 then 1 else 0 := by
        intro r r₁ hr h₁
        rw [(bump_spec h₁ p.2).1, (countRegions_spec_of hr p.2).1]
        simp
      have hbegin : ∀ {r : Std.TreeMap UInt64 ℤ}, countRegions mallocs {} = .ok r →
          r.getD p.1 0 = net mallocs p.1 := by
        intro r hr
        rw [(countRegions_spec_of hr p.1).1]
        simp
      constructor
      · rintro ⟨regions, h⟩
        obtain ⟨r, hr, h⟩ := checked_bind_eq_ok.mp h
        obtain ⟨r₁, h₁, h₂⟩ := checked_bind_eq_ok.mp h
        have hfits₁ := (bump_returns_iff (by decide)).mp ⟨r₁, h₁⟩
        have hfits₂ := (bump_returns_iff (by decide)).mp ⟨regions, h₂⟩
        rw [hbegin hr] at hfits₁
        rw [hcount hr h₁] at hfits₂
        exact ⟨⟨r, hr⟩, hfits₁, hfits₂⟩
      · rintro ⟨⟨r, hr⟩, hfits₁, hfits₂⟩
        rw [← hbegin hr] at hfits₁
        obtain ⟨r₁, h₁⟩ := (bump_returns_iff (by decide)).mpr hfits₁
        rw [← hcount hr h₁] at hfits₂
        obtain ⟨r₂, h₂⟩ := (bump_returns_iff (show InInt (-1) by decide)).mpr hfits₂
        exact ⟨r₂, checked_bind_eq_ok.mpr ⟨r, hr, checked_bind_eq_ok.mpr ⟨r₁, h₁, h₂⟩⟩⟩

end Count

/-! ## Merging -/

/-- The second loop appends the regions of the sweep to those already merged: every region it
enters starts beyond all earlier ones. -/
lemma mergeLoop_toList : ∀ {es : List (UInt64 × ℤ)} {n : ℤ} {first : UInt64}
    {merged merged' : Std.TreeMap UInt64 UInt64}, mergeLoop es n first merged = .ok merged' →
    (es.Pairwise fun p q => p.1 < q.1) → (∀ p ∈ merged.toList, ∀ e ∈ es, p.1 < e.1) →
    (n ≠ 0 → (∀ p ∈ merged.toList, p.1 < first) ∧ ∀ e ∈ es, first ≤ e.1) →
    merged'.toList = merged.toList ++ sweep n first es
  | [], _, _, _, _, h, _, _, _ => by
      cases Except.ok.inj h
      simp [sweep]
  | (p, c) :: rest, n, first, merged, merged', h, hs, hm, hf => by
      simp only [mergeLoop] at h
      obtain ⟨n', hn', h⟩ := checked_bind_eq_ok.mp h
      obtain ⟨-, rfl⟩ := intAdd_eq_ok.mp hn'
      obtain ⟨hlt, hs'⟩ := List.pairwise_cons.mp hs
      set first' := if n = 0 then p else first with hfirst'
      have hfirst_gt : ∀ q ∈ merged.toList, q.1 < first' := by
        intro q hq
        rw [hfirst']
        split_ifs with hn
        · exact hm q hq (p, c) (by simp)
        · exact (hf hn).1 q hq
      have hfirst_le : first' ≤ p := by
        rw [hfirst']
        split_ifs with hn
        · exact le_refl _
        · exact (hf hn).2 (p, c) (by simp)
      have hm' : ∀ q ∈ merged.toList, ∀ e ∈ rest, q.1 < e.1 :=
        fun q hq e he => hm q hq e (by simp [he])
      have hfirst_le' : ∀ e ∈ rest, first' ≤ e.1 :=
        fun e he => le_trans hfirst_le (le_of_lt (hlt e he))
      by_cases h0 : n + c = 0
      · rw [if_pos h0] at h
        have happ : (merged.insert first' p).toList = merged.toList ++ [(first', p)] :=
          toList_insert_of_lt merged first' p hfirst_gt
        have hins : ∀ q ∈ (merged.insert first' p).toList, ∀ e ∈ rest, q.1 < e.1 := by
          intro q hq e he
          rw [happ] at hq
          rcases List.mem_append.mp hq with hq | hq
          · exact hm' q hq e he
          · rw [List.mem_singleton.mp hq]
            exact lt_of_le_of_lt hfirst_le (hlt e he)
        rw [mergeLoop_toList h hs' hins fun hne => absurd h0 hne, happ]
        simp [sweep, h0, ← hfirst']
      · rw [if_neg h0] at h
        rw [mergeLoop_toList h hs' hm' fun _ => ⟨hfirst_gt, hfirst_le'⟩]
        simp [sweep, h0, ← hfirst']

/-- The second loop returns just if its counter stays an `int`. -/
lemma mergeLoop_returns_iff : ∀ {es : List (UInt64 × ℤ)} {n : ℤ} {first : UInt64}
    {merged : Std.TreeMap UInt64 UInt64}, (es.Pairwise fun p q => p.1 < q.1) →
    ((∃ merged', mergeLoop es n first merged = .ok merged') ↔
      ∀ k ∈ es.map Prod.fst, InInt (n + countedWhere (· ≤ k) es))
  | [], n, first, merged, _ => ⟨fun _ => by simp, fun _ => ⟨merged, rfl⟩⟩
  | (p, c) :: rest, n, first, merged, hs => by
      obtain ⟨hlt, hs'⟩ := List.pairwise_cons.mp hs
      have hkeys : ∀ k ∈ rest.map Prod.fst, p < k := by
        intro k hk
        obtain ⟨e, he, rfl⟩ := List.mem_map.mp hk
        exact hlt e he
      have hhead : n + countedWhere (· ≤ p) ((p, c) :: rest) = n + c := by
        rw [countedWhere, if_pos (le_refl p),
          countedWhere_eq_zero fun k hk => not_le.mpr (hkeys k hk), Int.add_zero]
      have htail : ∀ k ∈ rest.map Prod.fst, n + countedWhere (· ≤ k) ((p, c) :: rest)
          = n + c + countedWhere (· ≤ k) rest := by
        intro k hk
        rw [countedWhere, if_pos (le_of_lt (hkeys k hk)), Int.add_assoc]
      have hloop : (∃ merged', mergeLoop ((p, c) :: rest) n first merged = .ok merged') ↔
          InInt (n + c) ∧ ∀ k ∈ rest.map Prod.fst, InInt (n + c + countedWhere (· ≤ k) rest) := by
        simp only [mergeLoop]
        constructor
        · rintro ⟨merged', h⟩
          obtain ⟨n', hn', h⟩ := checked_bind_eq_ok.mp h
          obtain ⟨hfits, rfl⟩ := intAdd_eq_ok.mp hn'
          exact ⟨hfits, (mergeLoop_returns_iff hs').mp ⟨merged', h⟩⟩
        · rintro ⟨hfits, hrest⟩
          obtain ⟨merged', h⟩ := (mergeLoop_returns_iff hs').mpr hrest
          exact ⟨merged', checked_bind_eq_ok.mpr ⟨n + c, intAdd_eq_ok.mpr ⟨hfits, rfl⟩, h⟩⟩
      rw [hloop, List.map_cons, List.forall_mem_cons, hhead]
      exact and_congr_right fun _ => forall₂_congr fun k hk => by rw [htail k hk]

/-! ## The merged regions -/

section Merged

variable {mallocs : List (UInt64 × UInt64)} {merged : Std.TreeMap UInt64 UInt64}

/-- What the two loops compute, as a list in ascending order. -/
lemma mergedRegions_toList (h : mergedRegions mallocs = .ok merged) :
    ∃ es, EndpointTable mallocs es ∧ merged.toList = sweep 0 0 es := by
  obtain ⟨regions, hr, hm⟩ := checked_bind_eq_ok.mp h
  have htable := endpointTable_of_countRegions hr
  refine ⟨regions.toList, htable, ?_⟩
  exact (mergeLoop_toList hm htable.sorted (by simp) fun h0 => absurd rfl h0).trans
    (List.nil_append _)

/-- **The merged regions are the components of the union.** -/
theorem mergedRegions_spec (h : mergedRegions mallocs = .ok merged) (hwf : WellFormed mallocs) :
    Separated merged.toList ∧ (∀ a, Covered merged.toList a ↔ Covered mallocs a) ∧
      ∀ r ∈ merged.toList, (∃ p ∈ mallocs, p.1 = r.1) ∧ ∃ p ∈ mallocs, p.2 = r.2 := by
  obtain ⟨es, htable, heq⟩ := mergedRegions_toList h
  rw [heq]
  exact ⟨sweep_separated htable 0, sweep_covered htable hwf 0, sweep_bounds htable hwf 0⟩

/-- **What is merged**, also where a MALLOC ends before it begins. -/
theorem mergedRegions_spanned (h : mergedRegions mallocs = .ok merged) :
    Separated merged.toList ∧ ∀ a, Covered merged.toList a ↔ Spanned mallocs a := by
  obtain ⟨es, htable, heq⟩ := mergedRegions_toList h
  rw [heq]
  exact ⟨sweep_separated htable 0, sweep_spanned htable 0⟩

/-- No counter of the two loops leaves the `int`s: neither the count of an address, nor the number
of open regions. -/
structure CountersFit (mallocs : List (UInt64 × UInt64)) : Prop where
  counts : EachStep CountFits mallocs
  opens : ∀ x, IsEndpoint mallocs x → InInt (balance mallocs x)

/-- **When the regions are merged.** -/
theorem mergedRegions_returns_iff :
    (∃ merged, mergedRegions mallocs = .ok merged) ↔ CountersFit mallocs := by
  have hopens : ∀ {regions : Std.TreeMap UInt64 ℤ}, countRegions mallocs {} = .ok regions →
      ((∃ merged, mergeLoop regions.toList 0 0 {} = .ok merged) ↔
        ∀ x, IsEndpoint mallocs x → InInt (balance mallocs x)) := by
    intro regions hr
    have htable := endpointTable_of_countRegions hr
    rw [mergeLoop_returns_iff htable.sorted]
    simp only [htable.counted_eq_balance, htable.mem_iff, Int.zero_add]
  constructor
  · rintro ⟨merged, h⟩
    obtain ⟨regions, hr, hm⟩ := checked_bind_eq_ok.mp h
    exact ⟨countRegions_returns_iff.mp ⟨regions, hr⟩, (hopens hr).mp ⟨merged, hm⟩⟩
  · rintro ⟨hcounts, hbalance⟩
    obtain ⟨regions, hr⟩ := countRegions_returns_iff.mpr hcounts
    obtain ⟨merged, hm⟩ := (hopens hr).mpr hbalance
    exact ⟨merged, checked_bind_eq_ok.mpr ⟨regions, hr, hm⟩⟩

/-- **No counter overflows** with fewer than `2 ^ 31` intervals. -/
theorem countersFit_of_length (hlen : mallocs.length < 2 ^ 31) : CountersFit mallocs := by
  constructor
  · intro k p hk
    have hle : (mallocs.take k).length + 1 ≤ mallocs.length := by
      have := lt_of_getElem? hk
      rw [List.length_take]
      omega
    have hb := @List.countP_le_length _ (fun q => decide (q.1 = p.1)) (mallocs.take k)
    have hb' := @List.countP_le_length _ (fun q => decide (q.2 = p.1)) (mallocs.take k)
    have he := @List.countP_le_length _ (fun q => decide (q.1 = p.2)) (mallocs.take k)
    have he' := @List.countP_le_length _ (fun q => decide (q.2 = p.2)) (mallocs.take k)
    rw [CountFits, InInt, InInt, net, net]
    split_ifs <;> omega
  · intro x _
    have hb := @List.countP_le_length _ (fun q => decide (q.1 ≤ x)) mallocs
    have he := @List.countP_le_length _ (fun q => decide (q.2 ≤ x)) mallocs
    rw [InInt, balance]
    omega

/-- **The merged regions are the connected components** of the union of the MALLOCs' intervals,
whichever order the events come in.  They are apart from each other, cover just what the intervals
cover, begin and end where some interval does, and two intervals are in one region just if a chain
of intervals that meet leads from one to the other. -/
theorem mergedRegions_components (hlen : mallocs.length < 2 ^ 31) (hwf : WellFormed mallocs) :
    ∃ merged, mergedRegions mallocs = .ok merged ∧ Components mallocs merged.toList ∧
      ∀ mallocs', mallocs'.Perm mallocs →
        ∃ merged', mergedRegions mallocs' = .ok merged' ∧ merged'.toList = merged.toList := by
  have hmerges : ∀ ms : List (UInt64 × UInt64), ms.length < 2 ^ 31 → WellFormed ms →
      ∃ merged, mergedRegions ms = .ok merged ∧ Components ms merged.toList := by
    intro ms hlen hwf
    obtain ⟨merged, h⟩ := mergedRegions_returns_iff.mpr (countersFit_of_length hlen)
    obtain ⟨es, htable, heq⟩ := mergedRegions_toList h
    exact ⟨merged, h, heq ▸ sweep_components htable hwf 0⟩
  obtain ⟨merged, h, hcomp⟩ := hmerges mallocs hlen hwf
  refine ⟨merged, h, hcomp, ?_⟩
  intro mallocs' hperm
  have hwf' : WellFormed mallocs' := fun p hp => hwf p (hperm.mem_iff.mp hp)
  obtain ⟨merged', h', hcomp'⟩ := hmerges mallocs' (hperm.length_eq ▸ hlen) hwf'
  exact ⟨merged', h', components_unique hcomp' hcomp hwf' fun p => hperm.mem_iff⟩

/-- Touching, nested, repeated and zero-length blocks. -/
theorem touchingAndNested_components :
    ∃ merged, mergedRegions [(40, 40), (20, 30), (10, 20), (12, 15), (12, 15)] = .ok merged ∧
      Components [(40, 40), (20, 30), (10, 20), (12, 15), (12, 15)] merged.toList ∧
      ∀ mallocs', mallocs'.Perm [(40, 40), (20, 30), (10, 20), (12, 15), (12, 15)] →
        ∃ merged', mergedRegions mallocs' = .ok merged' ∧ merged'.toList = merged.toList :=
  mergedRegions_components (by decide) (by decide)

end Merged

end PerVERT
