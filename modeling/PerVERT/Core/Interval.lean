import Mathlib.Order.Lattice
import Mathlib.Data.List.Basic
import Mathlib.Data.Int.Order.Basic
import Mathlib.Tactic.TypeStar

/-!
# Unions of closed intervals and the counting sweep

A finite list of closed intervals `[b, e]` over a linear order has a union, and that union has
connected components.  The counting sweep finds them in one pass over the endpoints: keep the
number of intervals still open, start a region when it leaves `0`, close it when it returns to
`0`.

* `Covered ivs a` — some interval of `ivs` contains `a`.
* `Separated rs` — a list of regions with pairwise gaps, in ascending order.
* `net ivs p` — begins minus ends at `p`, the number the sweep adds when it passes `p`.
* `sweep` — the pass itself, over the endpoints in ascending order.
* **`sweep_separated`**, **`sweep_bounds`** — the regions are separated, and begin and end where
  some interval begins and ends.  What they cover is in `Core/Balance.lean`.

The proofs walk down the list of endpoints still to come.  `openCount ivs ks` is the number of
intervals that have begun but whose end is still among `ks`; the sweep's counter *is* this number
(`openCount_cons`), so a region begins and ends where nothing is open.
-/

namespace PerVERT

variable {α : Type*} [LinearOrder α]

/-! ## Coverage and separation -/

/-- `a` lies in one of the closed intervals. -/
def Covered (ivs : List (α × α)) (a : α) : Prop :=
  ∃ p ∈ ivs, p.1 ≤ a ∧ a ≤ p.2

instance (ivs : List (α × α)) (a : α) : Decidable (Covered ivs a) :=
  inferInstanceAs (Decidable (∃ p ∈ ivs, p.1 ≤ a ∧ a ≤ p.2))

@[simp] lemma covered_nil (a : α) : ¬ Covered ([] : List (α × α)) a := by
  simp [Covered]

@[simp] lemma covered_cons (p : α × α) (ivs : List (α × α)) (a : α) :
    Covered (p :: ivs) a ↔ (p.1 ≤ a ∧ a ≤ p.2) ∨ Covered ivs a := by
  simp [Covered]

/-- Every interval has its begin at or before its end. -/
def WellFormed (ivs : List (α × α)) : Prop :=
  ∀ p ∈ ivs, p.1 ≤ p.2

instance (ivs : List (α × α)) : Decidable (WellFormed ivs) :=
  inferInstanceAs (Decidable (∀ p ∈ ivs, p.1 ≤ p.2))

/-- Regions in ascending order, each nonempty, each strictly before the next. -/
structure Separated (rs : List (α × α)) : Prop where
  wellFormed : WellFormed rs
  apart : rs.Pairwise fun p q => p.2 < q.1

lemma Separated.nil : Separated ([] : List (α × α)) :=
  ⟨by simp [WellFormed], List.Pairwise.nil⟩

lemma separated_cons {p : α × α} {rs : List (α × α)} :
    Separated (p :: rs) ↔ p.1 ≤ p.2 ∧ (∀ q ∈ rs, p.2 < q.1) ∧ Separated rs := by
  constructor
  · rintro ⟨hwf, hap⟩
    rw [List.pairwise_cons] at hap
    exact ⟨hwf p (by simp), hap.1, fun q hq => hwf q (by simp [hq]), hap.2⟩
  · rintro ⟨hp, hq, hwf, hap⟩
    refine ⟨?_, List.pairwise_cons.mpr ⟨hq, hap⟩⟩
    intro r hr
    rcases List.mem_cons.mp hr with rfl | hr
    · exact hp
    · exact hwf r hr

/-! ## Endpoints and the net count -/

/-- `x` is the begin or the end of some interval. -/
def IsEndpoint (ivs : List (α × α)) (x : α) : Prop :=
  ∃ p ∈ ivs, p.1 = x ∨ p.2 = x

/-- Begins minus ends at `x`. -/
def net (ivs : List (α × α)) (x : α) : ℤ :=
  (ivs.countP fun p => p.1 = x) - (ivs.countP fun p => p.2 = x)

@[simp] lemma net_nil (x : α) : net ([] : List (α × α)) x = 0 := rfl

lemma net_cons (p : α × α) (ivs : List (α × α)) (x : α) :
    net (p :: ivs) x = net ivs x + (if p.1 = x then 1 else 0) - (if p.2 = x then 1 else 0) := by
  simp only [net, List.countP_cons, decide_eq_true_eq]
  split_ifs <;> push_cast <;> omega

/-- The intervals that have begun before the endpoints `ks` and end among them. -/
def openCount (ivs : List (α × α)) (ks : List α) : ℕ :=
  ivs.countP fun p => p.1 ∉ ks ∧ p.2 ∈ ks

/-- The endpoints not in `ks` lie strictly before all of `ks`: the sweep has passed exactly
them. -/
def Passed (ivs : List (α × α)) (ks : List α) : Prop :=
  ∀ x, IsEndpoint ivs x → x ∉ ks → ∀ k ∈ ks, x < k

lemma openCount_eq_zero {ivs : List (α × α)} {ks : List α} :
    openCount ivs ks = 0 ↔ ∀ p ∈ ivs, p.1 ∉ ks → p.2 ∉ ks := by
  simp [openCount, List.countP_eq_zero]

lemma openCount_of_all {ivs : List (α × α)} {ks : List α}
    (h : ∀ x, IsEndpoint ivs x → x ∈ ks) : openCount ivs ks = 0 :=
  openCount_eq_zero.mpr fun p hp hb => absurd (h p.1 ⟨p, hp, Or.inl rfl⟩) hb

section Step

variable {ivs : List (α × α)} {k : α} {ks : List α}

lemma Passed.tail (h : Passed ivs (k :: ks)) (hk : ∀ x ∈ ks, k < x) : Passed ivs ks := by
  intro x hx hxk y hy
  by_cases hxe : x = k
  · exact hxe ▸ hk y hy
  · exact h x hx (by simp [hxe, hxk]) y (by simp [hy])

/-- **The counter is the open count.**  Passing `k` adds begins minus ends at `k`. -/
lemma openCount_cons (hwf : WellFormed ivs) (h : Passed ivs (k :: ks)) (hk : ∀ x ∈ ks, k < x) :
    (openCount ivs ks : ℤ) = openCount ivs (k :: ks) + net ivs k := by
  -- the two counts are compared interval by interval: one that begins at `k` opens, one that
  -- ends at `k` closes, one that does both was never open, and no other one changes
  have hkk : k ∉ ks := fun hm => lt_irrefl k (hk k hm)
  have key : ∀ l : List (α × α), (∀ p ∈ l, p ∈ ivs) →
      (openCount l ks : ℤ) = openCount l (k :: ks) + net l k := by
    intro l
    induction l with
    | nil => intro _; simp [openCount]
    | cons p l ih =>
        intro hl
        have hp : p ∈ ivs := hl p (by simp)
        have ih' := ih fun q hq => hl q (by simp [hq])
        have hbegin : p.1 < k → p.1 ∉ ks := fun hlt hm => lt_asymm hlt (hk _ hm)
        have hend : k < p.2 → p.2 ∈ ks := by
          intro hlt
          by_contra hm
          have hne : p.2 ≠ k := ne_of_gt hlt
          exact lt_asymm hlt (h p.2 ⟨p, hp, Or.inr rfl⟩ (by simp [hne, hm]) k (by simp))
        have hle := hwf p hp
        rw [net_cons]
        simp only [openCount, List.countP_cons, decide_eq_true_eq, List.mem_cons, not_or] at ih' ⊢
        by_cases hb : p.1 = k <;> by_cases he : p.2 = k
        · simp only [hb, he, hkk]; simp at ih' ⊢; omega
        · have : p.2 ∈ ks := hend (lt_of_le_of_ne (hb ▸ hle) (Ne.symm he))
          simp only [hb, he, hkk, this]; simp at ih' ⊢; omega
        · have : p.1 ∉ ks := hbegin (lt_of_le_of_ne (he ▸ hle) hb)
          simp only [hb, he, hkk, this]; simp at ih' ⊢; omega
        · simp only [hb, he]; simp at ih' ⊢; omega
  exact key ivs fun _ hp => hp

lemma covered_of_isEndpoint (hwf : WellFormed ivs) {x : α} (hx : IsEndpoint ivs x) :
    Covered ivs x := by
  obtain ⟨p, hp, rfl | rfl⟩ := hx
  · exact ⟨p, hp, le_refl _, hwf p hp⟩
  · exact ⟨p, hp, hwf p hp, le_refl _⟩

/-- With nothing open before `k`, some interval begins there. -/
lemma begin_of_closed (hwf : WellFormed ivs) (hk : ∀ x ∈ ks, k < x)
    (h0 : openCount ivs (k :: ks) = 0) (hx : IsEndpoint ivs k) : ∃ p ∈ ivs, p.1 = k := by
  obtain ⟨p, hp, hpk | hpk⟩ := hx
  · exact ⟨p, hp, hpk⟩
  · refine ⟨p, hp, ?_⟩
    by_contra hne
    have hlt : p.1 < k := lt_of_le_of_ne (hpk ▸ hwf p hp) hne
    have hb : p.1 ∉ k :: ks := by
      simp only [List.mem_cons, not_or]
      exact ⟨hne, fun hm => lt_asymm hlt (hk _ hm)⟩
    exact openCount_eq_zero.mp h0 p hp hb (by simp [hpk])

/-- With nothing open after `k`, some interval ends there. -/
lemma end_of_closed (hwf : WellFormed ivs) (h : Passed ivs (k :: ks)) (hk : ∀ x ∈ ks, k < x)
    (h0 : openCount ivs ks = 0) (hx : IsEndpoint ivs k) : ∃ p ∈ ivs, p.2 = k := by
  have hkk : k ∉ ks := fun hm => lt_irrefl k (hk k hm)
  obtain ⟨p, hp, hpk | hpk⟩ := hx
  · refine ⟨p, hp, ?_⟩
    have he : p.2 ∉ ks := openCount_eq_zero.mp h0 p hp (hpk ▸ hkk)
    by_contra hne
    have hlt := h p.2 ⟨p, hp, Or.inr rfl⟩ (by simp [hne, he]) k (by simp)
    exact absurd (hpk ▸ hwf p hp) (not_le.mpr hlt)
  · exact ⟨p, hp, hpk⟩

end Step

/-! ## The sweep -/

/-- One pass over the endpoints with their net counts.  `n` is the number of open intervals,
`first` the begin of the region being built. -/
def sweep : ℤ → α → List (α × ℤ) → List (α × α)
  | _, _, [] => []
  | n, first, (p, c) :: rest =>
      let first' := if n = 0 then p else first
      if n + c = 0 then (first', p) :: sweep (n + c) first' rest else sweep (n + c) first' rest

/-- Endpoints to come in ascending order, behind the begin of the region being built. -/
structure Ascending (n : ℤ) (first : α) (es : List (α × ℤ)) : Prop where
  sorted : es.Pairwise fun p q => p.1 < q.1
  first_le : n ≠ 0 → ∀ e ∈ es, first ≤ e.1

section Ascending

variable {n c : ℤ} {first p : α} {rest : List (α × ℤ)}

lemma Ascending.lt_rest (h : Ascending n first ((p, c) :: rest)) :
    ∀ x ∈ rest.map Prod.fst, p < x := by
  intro x hx
  obtain ⟨e, he, rfl⟩ := List.mem_map.mp hx
  exact (List.pairwise_cons.mp h.sorted).1 e he

/-- The region being built begins at the next endpoint or before it. -/
lemma Ascending.begin_le (h : Ascending n first ((p, c) :: rest)) :
    (if n = 0 then p else first) ≤ p := by
  by_cases hn : n = 0
  · rw [if_pos hn]
  · rw [if_neg hn]
    exact h.first_le hn (p, c) (by simp)

lemma Ascending.step (h : Ascending n first ((p, c) :: rest)) :
    Ascending (n + c) (if n = 0 then p else first) rest where
  sorted := (List.pairwise_cons.mp h.sorted).2
  first_le := fun _ e he => le_trans h.begin_le
    (le_of_lt (h.lt_rest e.1 (List.mem_map.mpr ⟨e, he, rfl⟩)))

omit [LinearOrder α] in
/-- No region starts before `first` when one is open, nor before the next endpoint otherwise. -/
lemma sweep_begin : ∀ {es : List (α × ℤ)} {n : ℤ} {first : α}, ∀ r ∈ sweep n first es,
    r.1 ∈ es.map Prod.fst ∨ (n ≠ 0 ∧ r.1 = first)
  | [], _, _ => by simp [sweep]
  | (p, c) :: rest, n, first => by
      intro r hr
      have hfirst : (if n = 0 then p else first) ∈ ((p, c) :: rest).map Prod.fst ∨
          (n ≠ 0 ∧ (if n = 0 then p else first) = first) := by
        by_cases hn : n = 0 <;> simp [hn]
      have ih := @sweep_begin rest (n + c) (if n = 0 then p else first) r
      simp only [sweep] at hr
      have lift : r.1 ∈ rest.map Prod.fst ∨ (n + c ≠ 0 ∧ r.1 = if n = 0 then p else first) →
          r.1 ∈ ((p, c) :: rest).map Prod.fst ∨ (n ≠ 0 ∧ r.1 = first) := by
        rintro (hm | ⟨-, he⟩)
        · exact Or.inl (List.mem_cons_of_mem _ hm)
        · rw [he]; exact hfirst
      by_cases hn' : n + c = 0
      · rw [if_pos hn'] at hr
        rcases List.mem_cons.mp hr with rfl | hr
        · exact hfirst
        · exact lift (ih hr)
      · rw [if_neg hn'] at hr
        exact lift (ih hr)

lemma separated_sweep : ∀ {es : List (α × ℤ)} {n : ℤ} {first : α},
    Ascending n first es → Separated (sweep n first es)
  | [], _, _, _ => Separated.nil
  | (p, c) :: rest, n, first, h => by
      have ih := separated_sweep h.step
      simp only [sweep]
      by_cases hn' : n + c = 0
      · rw [if_pos hn', separated_cons]
        refine ⟨h.begin_le, ?_, ih⟩
        intro q hq
        rcases sweep_begin q hq with hm | ⟨hne, -⟩
        · exact h.lt_rest _ hm
        · exact absurd hn' hne
      · rwa [if_neg hn']

end Ascending

/-- The hypotheses that the statements about a run of the sweep share: `es` lists the endpoints
still to come in ascending order with their net counts, and `n` intervals are open. -/
structure SweepAt (ivs : List (α × α)) (n : ℤ) (first : α) (es : List (α × ℤ)) : Prop where
  wellFormed : WellFormed ivs
  sorted : es.Pairwise fun p q => p.1 < q.1
  net_eq : ∀ e ∈ es, e.2 = net ivs e.1
  endpoint : ∀ e ∈ es, IsEndpoint ivs e.1
  passed : Passed ivs (es.map Prod.fst)
  count_eq : n = openCount ivs (es.map Prod.fst)
  first_le : n ≠ 0 → ∀ e ∈ es, first ≤ e.1

namespace SweepAt

variable {ivs : List (α × α)} {n c : ℤ} {first p : α} {rest : List (α × ℤ)}

lemma ascending {es : List (α × ℤ)} (h : SweepAt ivs n first es) : Ascending n first es :=
  ⟨h.sorted, h.first_le⟩

lemma lt_rest (h : SweepAt ivs n first ((p, c) :: rest)) :
    ∀ x ∈ rest.map Prod.fst, p < x :=
  h.ascending.lt_rest

/-- One step of the pass re-establishes the shared hypotheses. -/
lemma step (h : SweepAt ivs n first ((p, c) :: rest)) :
    SweepAt ivs (n + c) (if n = 0 then p else first) rest where
  wellFormed := h.wellFormed
  sorted := (List.pairwise_cons.mp h.sorted).2
  net_eq := fun e he => h.net_eq e (by simp [he])
  endpoint := fun e he => h.endpoint e (by simp [he])
  passed := h.passed.tail h.lt_rest
  count_eq := by
    rw [openCount_cons h.wellFormed h.passed h.lt_rest, ← h.net_eq (p, c) (by simp)]
    simpa using h.count_eq
  first_le := h.ascending.step.first_le

lemma openCount_zero (h : SweepAt ivs n first rest) (hn : n = 0) :
    openCount ivs (rest.map Prod.fst) = 0 := by
  have := h.count_eq; omega

end SweepAt

/-- Each region begins where some interval begins and ends where some interval ends, provided
the region already open did. -/
lemma sweep_bounds_of {ivs : List (α × α)} : ∀ {es : List (α × ℤ)} {n : ℤ} {first : α},
    SweepAt ivs n first es → (n ≠ 0 → ∃ p ∈ ivs, p.1 = first) → ∀ r ∈ sweep n first es,
      (∃ p ∈ ivs, p.1 = r.1) ∧ ∃ p ∈ ivs, p.2 = r.2
  | [], _, _, _, _ => by simp [sweep]
  | (p, c) :: rest, n, first, h, hfirst => by
      have hp : IsEndpoint ivs p := h.endpoint (p, c) (by simp)
      have hbegin : ∃ q ∈ ivs, q.1 = if n = 0 then p else first := by
        by_cases hn : n = 0
        · simpa [hn] using begin_of_closed h.wellFormed h.lt_rest (h.openCount_zero hn) hp
        · simpa [hn] using hfirst hn
      have ih := sweep_bounds_of h.step fun _ => hbegin
      intro r hr
      simp only [sweep] at hr
      by_cases hn' : n + c = 0
      · rw [if_pos hn'] at hr
        rcases List.mem_cons.mp hr with rfl | hr
        · exact ⟨hbegin,
            end_of_closed h.wellFormed h.passed h.lt_rest (h.step.openCount_zero hn') hp⟩
        · exact ih r hr
      · rw [if_neg hn'] at hr
        exact ih r hr

/-! ## The whole pass -/

/-- `es` lists every endpoint of `ivs` once, in ascending order, with its net count. -/
structure EndpointTable (ivs : List (α × α)) (es : List (α × ℤ)) : Prop where
  sorted : es.Pairwise fun p q => p.1 < q.1
  net_eq : ∀ e ∈ es, e.2 = net ivs e.1
  mem_iff : ∀ x, x ∈ es.map Prod.fst ↔ IsEndpoint ivs x

section Pass

variable {ivs : List (α × α)} {es : List (α × ℤ)}

lemma EndpointTable.sweepAt (h : EndpointTable ivs es) (hwf : WellFormed ivs) (first : α) :
    SweepAt ivs 0 first es where
  wellFormed := hwf
  sorted := h.sorted
  net_eq := h.net_eq
  endpoint := fun e he => (h.mem_iff e.1).mp (List.mem_map.mpr ⟨e, he, rfl⟩)
  passed := fun x hx hxe => absurd ((h.mem_iff x).mpr hx) hxe
  count_eq := by
    rw [openCount_of_all fun x hx => (h.mem_iff x).mpr hx]; rfl
  first_le := fun h0 => absurd rfl h0

/-- Nothing is open before the first endpoint. -/
lemma EndpointTable.ascending (h : EndpointTable ivs es) (first : α) : Ascending 0 first es :=
  ⟨h.sorted, fun h0 => absurd rfl h0⟩

/-- **Consecutive regions are strictly separated**, whatever the intervals are. -/
theorem sweep_separated (h : EndpointTable ivs es) (first : α) : Separated (sweep 0 first es) :=
  separated_sweep (h.ascending first)

/-- **A region's bounds are a begin and an end of intervals.** -/
theorem sweep_bounds (h : EndpointTable ivs es) (hwf : WellFormed ivs) (first : α) :
    ∀ r ∈ sweep 0 first es, (∃ p ∈ ivs, p.1 = r.1) ∧ ∃ p ∈ ivs, p.2 = r.2 :=
  sweep_bounds_of (h.sweepAt hwf first) fun h0 => absurd rfl h0

end Pass

end PerVERT
