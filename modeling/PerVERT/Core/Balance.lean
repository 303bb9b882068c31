import PerVERT.Core.Interval

/-!
# What the sweep covers

The counting sweep of `Core/Interval.lean` takes any pairs.  A program that has not checked them may
hand it pairs that end before they begin: then the counter goes below zero, and a region is whatever
lies between two places where it vanishes.

* `balance ivs x` — begins minus ends up to `x`, the counter once the sweep has passed `x`.
* `Spanned ivs a` — `a` is an endpoint, or the counter does not vanish there.
* **`sweep_spanned`** — the regions cover exactly these places.
* **`sweep_covered`** — and so the union, when no pair is inverted (`spanned_iff_covered`).
-/

namespace PerVERT

variable {α : Type*} [LinearOrder α]

/-- Begins minus ends at or before `x`. -/
def balance (ivs : List (α × α)) (x : α) : ℤ :=
  (ivs.countP fun p => p.1 ≤ x) - (ivs.countP fun p => p.2 ≤ x)

/-- `a` is an endpoint, or something is open there. -/
def Spanned (ivs : List (α × α)) (a : α) : Prop :=
  IsEndpoint ivs a ∨ balance ivs a ≠ 0

instance (ivs : List (α × α)) (a : α) : Decidable (Spanned ivs a) :=
  inferInstanceAs (Decidable ((∃ p ∈ ivs, p.1 = a ∨ p.2 = a) ∨ _))

/-- Without inverted pairs, the balance counts the intervals that go on behind `a`. -/
lemma balance_eq_countP {ivs : List (α × α)} (hwf : WellFormed ivs) (a : α) :
    balance ivs a = ivs.countP fun p => p.1 ≤ a ∧ a < p.2 := by
  induction ivs with
  | nil => rfl
  | cons p ivs ih =>
      have hp : p.1 ≤ p.2 := hwf p List.mem_cons_self
      have ih := ih fun q hq => hwf q (List.mem_cons_of_mem _ hq)
      simp only [balance, List.countP_cons, decide_eq_true_eq] at ih ⊢
      by_cases hb : p.1 ≤ a
      · by_cases he : p.2 ≤ a
        · simp only [hb, he, not_lt.mpr he, and_false, if_true, if_false]
          omega
        · simp only [hb, he, not_le.mp he, and_true, if_true, if_false]
          omega
      · have he : ¬ p.2 ≤ a := fun h => hb (le_trans hp h)
        simp only [hb, he, false_and, if_false]
        omega

/-- **Without inverted pairs**, what is spanned is the union. -/
theorem spanned_iff_covered {ivs : List (α × α)} (hwf : WellFormed ivs) (a : α) :
    Spanned ivs a ↔ Covered ivs a := by
  have hopen : balance ivs a ≠ 0 ↔ ∃ p ∈ ivs, p.1 ≤ a ∧ a < p.2 := by
    rw [balance_eq_countP hwf, Int.natCast_ne_zero, ← Nat.pos_iff_ne_zero, List.countP_pos_iff]
    simp only [decide_eq_true_eq]
  rw [Spanned, hopen]
  constructor
  · rintro (hend | ⟨p, hp, hb, he⟩)
    · exact covered_of_isEndpoint hwf hend
    · exact ⟨p, hp, hb, le_of_lt he⟩
  · rintro ⟨p, hp, hb, he⟩
    rcases lt_or_eq_of_le he with hlt | heq
    · exact Or.inr ⟨p, hp, hb, hlt⟩
    · exact Or.inl ⟨p, hp, Or.inr heq.symm⟩

/-! ## The counter -/

/-- The sum of the counts at the keys with the property `q`. -/
def countedWhere (q : α → Prop) [DecidablePred q] : List (α × ℤ) → ℤ
  | [] => 0
  | (k, c) :: es => (if q k then c else 0) + countedWhere q es

section Counted

variable {q : α → Prop} [DecidablePred q]

omit [LinearOrder α] in
lemma countedWhere_eq_zero : ∀ {es : List (α × ℤ)}, (∀ k ∈ es.map Prod.fst, ¬ q k) →
    countedWhere q es = 0
  | [], _ => rfl
  | (k, c) :: es, h => by
      rw [countedWhere, if_neg (h k (by simp)), countedWhere_eq_zero fun x hx => h x (by simp [hx])]
      rfl

lemma countedWhere_single_of_notMem {y : α} : ∀ {keys : List α}, y ∉ keys →
    countedWhere q (keys.map fun k => (k, if y = k then 1 else 0)) = 0
  | [], _ => rfl
  | k :: keys, hy => by
      obtain ⟨hk, hy⟩ := not_or.mp (mt List.mem_cons.mpr hy)
      rw [List.map_cons, countedWhere, if_neg hk, countedWhere_single_of_notMem hy]
      simp

/-- One key among them, counted once. -/
lemma countedWhere_single {y : α} : ∀ {keys : List α}, keys.Nodup → y ∈ keys →
    countedWhere q (keys.map fun k => (k, if y = k then 1 else 0)) = if q y then 1 else 0
  | k :: keys, hnodup, hy => by
      obtain ⟨hk, hnodup⟩ := List.nodup_cons.mp hnodup
      rw [List.map_cons, countedWhere]
      by_cases hyk : y = k
      · subst hyk
        rw [countedWhere_single_of_notMem hk, if_pos rfl]
        simp
      · have hy' : y ∈ keys := (List.mem_cons.mp hy).resolve_left hyk
        rw [if_neg hyk, countedWhere_single hnodup hy']
        simp

omit [LinearOrder α] in
lemma countedWhere_add (f g h : α → ℤ) : ∀ keys : List α,
    countedWhere q (keys.map fun k => (k, f k + g k - h k))
      = countedWhere q (keys.map fun k => (k, f k)) + countedWhere q (keys.map fun k => (k, g k))
        - countedWhere q (keys.map fun k => (k, h k))
  | [] => rfl
  | k :: keys => by
      simp only [List.map_cons, countedWhere, countedWhere_add f g h keys]
      split_ifs <;> omega

/-- The net counts of the keys with the property are the begins minus the ends with it. -/
lemma countedWhere_net {keys : List α} (hnodup : keys.Nodup) : ∀ {ivs : List (α × α)},
    (∀ x, IsEndpoint ivs x → x ∈ keys) → countedWhere q (keys.map fun k => (k, net ivs k))
      = (ivs.countP fun p => q p.1) - (ivs.countP fun p => q p.2)
  | [], _ => by
      have hzero : ∀ keys : List α, countedWhere q (keys.map fun k => (k, (0 : ℤ))) = 0 := by
        intro keys
        induction keys with
        | nil => rfl
        | cons k keys ih => simp [countedWhere, ih]
      simpa using hzero keys
  | p :: ivs, h => by
      have hrest : ∀ x, IsEndpoint ivs x → x ∈ keys :=
        fun x ⟨r, hr, hx⟩ => h x ⟨r, List.mem_cons_of_mem _ hr, hx⟩
      have hb := h p.1 ⟨p, List.mem_cons_self, Or.inl rfl⟩
      have he := h p.2 ⟨p, List.mem_cons_self, Or.inr rfl⟩
      simp only [net_cons]
      rw [countedWhere_add, countedWhere_net hnodup hrest, countedWhere_single hnodup hb,
        countedWhere_single hnodup he]
      simp only [List.countP_cons, decide_eq_true_eq]
      split_ifs <;> push_cast <;> omega

end Counted

/-! ## What the sweep covers -/

/-- Where the sweep stands on `a`.  With the counter at `n` and counts to come that bring it back
to zero, the regions cover the keys to come and the places where the counter does not vanish. -/
lemma covered_sweep_iff : ∀ {es : List (α × ℤ)} {n : ℤ} {first : α}, Ascending n first es →
    n + countedWhere (fun _ => True) es = 0 → ∀ a, Covered (sweep n first es) a ↔
      (n ≠ 0 → first ≤ a) ∧ (a ∈ es.map Prod.fst ∨ n + countedWhere (· ≤ a) es ≠ 0)
  | [], n, first, _, htotal, a => by
      have hn : n = 0 := by simpa [countedWhere] using htotal
      simp [sweep, countedWhere, hn]
  | (p, c) :: rest, n, first, h, htotal, a => by
      have htotal' : n + c + countedWhere (fun _ => True) rest = 0 := by
        rw [countedWhere, if_pos trivial] at htotal
        omega
      have ih := covered_sweep_iff h.step htotal' a
      have hbegin := h.begin_le
      have hcovered : Covered (sweep n first ((p, c) :: rest)) a ↔
          (n + c = 0 ∧ (if n = 0 then p else first) ≤ a ∧ a ≤ p) ∨
            Covered (sweep (n + c) (if n = 0 then p else first) rest) a := by
        simp only [sweep]
        by_cases hclose : n + c = 0
        · simp [hclose]
        · simp [hclose]
      rw [hcovered, ih, countedWhere, List.map_cons, List.mem_cons]
      rcases lt_or_ge a p with hap | hpa
      · -- `a` lies before all keys to come
        have hzero : countedWhere (· ≤ a) rest = 0 := countedWhere_eq_zero fun k hk =>
          not_le.mpr (lt_trans hap (h.lt_rest k hk))
        have hmem : a ∉ rest.map Prod.fst := fun hm => lt_asymm hap (h.lt_rest a hm)
        rw [hzero, if_neg (not_le.mpr hap)]
        by_cases hn : n = 0
        · simp [hn, hmem, ne_of_lt hap, not_le.mpr hap]
        · by_cases hclose : n + c = 0
          · simp [hn, hclose, hmem, ne_of_lt hap, le_of_lt hap]
          · simp [hn, hclose, hmem, ne_of_lt hap]
      · -- the counter has passed `p`
        have hfirst : n ≠ 0 → first ≤ a := fun hn =>
          le_trans (h.first_le hn (p, c) List.mem_cons_self) hpa
        rw [if_pos hpa, ← Int.add_assoc, and_iff_right hfirst]
        rcases lt_or_eq_of_le hpa with hlt | rfl
        · have hne : ¬ a ≤ p := not_le.mpr hlt
          simp [hne, ne_of_gt hlt, le_trans hbegin hpa]
        · have hzero : countedWhere (· ≤ p) rest = 0 := countedWhere_eq_zero fun k hk =>
            not_le.mpr (h.lt_rest k hk)
          by_cases hclose : n + c = 0
          · simp [hclose, hbegin]
          · simp [hclose, hbegin, hzero]

section Pass

variable {ivs : List (α × α)} {es : List (α × ℤ)}

lemma EndpointTable.countedWhere_eq {q : α → Prop} [DecidablePred q] (h : EndpointTable ivs es) :
    countedWhere q es = (ivs.countP fun p => q p.1) - (ivs.countP fun p => q p.2) := by
  have hnodup : (es.map Prod.fst).Nodup := by
    rw [List.Nodup, List.pairwise_map]
    exact h.sorted.imp fun hlt => ne_of_lt hlt
  have hmap : es = (es.map Prod.fst).map fun k => (k, net ivs k) := by
    rw [List.map_map]
    exact (List.map_id es).symm.trans
      (List.map_congr_left fun e he => Prod.ext rfl (h.net_eq e he))
  rw [hmap]
  exact countedWhere_net hnodup fun x hx => (h.mem_iff x).mpr hx

/-- The counter behind `x` is the balance there. -/
lemma EndpointTable.counted_eq_balance (h : EndpointTable ivs es) (x : α) :
    countedWhere (· ≤ x) es = balance ivs x :=
  h.countedWhere_eq

/-- **What the regions cover**, whatever the pairs are. -/
theorem sweep_spanned (h : EndpointTable ivs es) (first a : α) :
    Covered (sweep 0 first es) a ↔ Spanned ivs a := by
  have htotal : (0 : ℤ) + countedWhere (fun _ => True) es = 0 := by
    rw [h.countedWhere_eq]
    simp
  rw [covered_sweep_iff (h.ascending first) htotal a, h.mem_iff, h.counted_eq_balance, Spanned]
  simp

/-- **The regions cover exactly the union of the intervals**, when none is inverted. -/
theorem sweep_covered (h : EndpointTable ivs es) (hwf : WellFormed ivs) (first a : α) :
    Covered (sweep 0 first es) a ↔ Covered ivs a :=
  (sweep_spanned h first a).trans (spanned_iff_covered hwf a)

end Pass

end PerVERT
