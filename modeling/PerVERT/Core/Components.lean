import PerVERT.Core.Balance
import Mathlib.Logic.Relation
import Mathlib.Data.Set.Finite.Lemmas
import Mathlib.Data.Set.Finite.List

/-!
# The components of a union of intervals

Separated regions that cover the union need not be its components: `[0, 3]` over the integers is
covered by `[0, 1]` and `[2, 3]`.  A component keeps every interval whole, and its intervals hang
together.

* `Linked ivs p q` — a chain of intervals of `ivs` from `p` to `q`, each meeting the next.
* `Components ivs regions` — the regions are the components of the union.
* **`components_unique`** — only one ascending list of regions is, and it depends on the intervals
  as a set: not on their order, nor on repetitions.
* **`sweep_components`** — the sweep of `Core/Interval.lean` finds it.
-/

namespace PerVERT

variable {α : Type*} [LinearOrder α]

/-! ## Regions -/

/-- The two closed intervals share a point. -/
def Meet (p q : α × α) : Prop :=
  p.1 ≤ q.2 ∧ q.1 ≤ p.2

/-- The interval lies within the region. -/
def Inside (p r : α × α) : Prop :=
  r.1 ≤ p.1 ∧ p.2 ≤ r.2

instance (p r : α × α) : Decidable (Inside p r) :=
  inferInstanceAs (Decidable (_ ∧ _))

/-- A chain of intervals, each meeting the next. -/
def Linked (ivs : List (α × α)) : α × α → α × α → Prop :=
  Relation.ReflTransGen fun p q => p ∈ ivs ∧ q ∈ ivs ∧ Meet p q

/-- The regions are the connected components of the union of the intervals, in ascending order. -/
structure Components (ivs regions : List (α × α)) : Prop where
  separated : Separated regions
  covered : ∀ a, Covered regions a ↔ Covered ivs a
  inside : ∀ p ∈ ivs, ∃ r ∈ regions, Inside p r
  bounds : ∀ r ∈ regions, (∃ p ∈ ivs, p.1 = r.1) ∧ ∃ p ∈ ivs, p.2 = r.2
  linked : ∀ r ∈ regions, ∀ p ∈ ivs, ∀ q ∈ ivs, Inside p r → Inside q r → Linked ivs p q

section Linked

variable {ivs ivs' : List (α × α)} {p q : α × α}

lemma Linked.symm (h : Linked ivs p q) : Linked ivs q p := by
  induction h with
  | refl => exact Relation.ReflTransGen.refl
  | tail _ hlast ih =>
      obtain ⟨hp, hq, hmeet⟩ := hlast
      exact Relation.ReflTransGen.head ⟨hq, hp, hmeet.2, hmeet.1⟩ ih

lemma Linked.mono (h : Linked ivs p q) (hmem : ∀ u ∈ ivs, u ∈ ivs') : Linked ivs' p q := by
  induction h with
  | refl => exact Relation.ReflTransGen.refl
  | tail _ hlast ih =>
      obtain ⟨hp, hq, hmeet⟩ := hlast
      exact Relation.ReflTransGen.tail ih ⟨hmem _ hp, hmem _ hq, hmeet⟩

end Linked

/-! ## One point, one region -/

section Unique

variable {regions regions' : List (α × α)}

lemma Separated.eq_of_mem (h : Separated regions) {r r' : α × α} {a : α} (hr : r ∈ regions)
    (hr' : r' ∈ regions) (ha : r.1 ≤ a ∧ a ≤ r.2) (ha' : r'.1 ≤ a ∧ a ≤ r'.2) : r = r' := by
  induction regions with
  | nil => simp at hr
  | cons u us ih =>
      obtain ⟨-, hlt, hus⟩ := separated_cons.mp h
      rcases List.mem_cons.mp hr with hru | hru
      · rcases List.mem_cons.mp hr' with hru' | hru'
        · rw [hru, hru']
        · exact absurd (le_trans ha'.1 ha.2) (not_le.mpr (hru ▸ hlt r' hru'))
      · rcases List.mem_cons.mp hr' with hru' | hru'
        · exact absurd (le_trans ha.1 ha'.2) (not_le.mpr (hru' ▸ hlt r hru))
        · exact ih hus hru hru'

/-- **Exactly one region** holds a covered point. -/
theorem Separated.existsUnique (h : Separated regions) {a : α} (ha : Covered regions a) :
    ∃! r, r ∈ regions ∧ r.1 ≤ a ∧ a ≤ r.2 := by
  obtain ⟨r, hr, hra⟩ := ha
  exact ⟨r, ⟨hr, hra⟩, fun r' hr' => h.eq_of_mem hr'.1 hr hr'.2 hra⟩

/-- Ascending lists of regions with the same members are the same list. -/
lemma Separated.ext (h : Separated regions) (h' : Separated regions')
    (hmem : ∀ r, r ∈ regions ↔ r ∈ regions') : regions = regions' := by
  have hsorted : ∀ {rs : List (α × α)}, Separated rs → rs.Pairwise fun r s => r.1 < s.1 :=
    fun hrs => hrs.apart.imp_of_mem fun hr _ hlt => lt_of_le_of_lt (hrs.wellFormed _ hr) hlt
  have hnodup : ∀ {rs : List (α × α)}, Separated rs → rs.Nodup :=
    fun hrs => (hsorted hrs).imp fun {r s} hlt (heq : r = s) => absurd hlt (heq ▸ lt_irrefl _)
  have hperm := (List.perm_ext_iff_of_nodup (hnodup h) (hnodup h')).mpr hmem
  exact hperm.eq_of_pairwise (fun _ _ _ _ hlt hgt => absurd hlt (lt_asymm hgt)) (hsorted h)
    (hsorted h')

end Unique

namespace Components

variable {ivs ivs' regions regions' : List (α × α)}

/-- What meets an interval of a region lies in this region too. -/
lemma inside_of_linked (h : Components ivs regions) (hwf : WellFormed ivs) {r p q : α × α}
    (hr : r ∈ regions) (hp : Inside p r) (hlink : Linked ivs p q) : Inside q r := by
  induction hlink with
  | refl => exact hp
  | @tail u v _ hlast ih =>
      obtain ⟨hu, hv, hmeet⟩ := hlast
      obtain ⟨r', hr', hvr'⟩ := h.inside v hv
      -- the later of the two begins belongs to both intervals
      have hshared : r = r' := by
        refine h.separated.eq_of_mem (a := max u.1 v.1) hr hr' ?_ ?_
        · exact ⟨le_trans ih.1 (le_max_left _ _),
            le_trans (max_le (hwf u hu) hmeet.2) ih.2⟩
        · exact ⟨le_trans hvr'.1 (le_max_right _ _),
            le_trans (max_le hmeet.1 (hwf v hv)) hvr'.2⟩
      exact hshared ▸ hvr'

/-- Every component of one list lies in a component of any other with these intervals. -/
lemma inside_region (h : Components ivs regions) (h' : Components ivs' regions')
    (hwf : WellFormed ivs) (hmem : ∀ p, p ∈ ivs ↔ p ∈ ivs') {r : α × α} (hr : r ∈ regions) :
    ∃ r' ∈ regions', Inside r r' := by
  have hwf' : WellFormed ivs' := fun p hp => hwf p ((hmem p).mpr hp)
  obtain ⟨⟨p, hp, hpr⟩, q, hq, hqr⟩ := h.bounds r hr
  have hrr := h.separated.wellFormed r hr
  have hpin : Inside p r := by
    obtain ⟨s, hs, hps⟩ := h.inside p hp
    have heq := h.separated.eq_of_mem (a := r.1) hr hs ⟨le_refl _, hrr⟩
      ⟨hpr ▸ hps.1, hpr ▸ le_trans (hwf p hp) hps.2⟩
    exact heq ▸ hps
  have hqin : Inside q r := by
    obtain ⟨s, hs, hqs⟩ := h.inside q hq
    have heq := h.separated.eq_of_mem (a := r.2) hr hs ⟨hrr, le_refl _⟩
      ⟨hqr ▸ le_trans hqs.1 (hwf q hq), hqr ▸ hqs.2⟩
    exact heq ▸ hqs
  obtain ⟨r', hr', hpr'⟩ := h'.inside p ((hmem p).mp hp)
  have hlink := (h.linked r hr p hp q hq hpin hqin).mono fun u hu => (hmem u).mp hu
  have hqr' := h'.inside_of_linked hwf' hr' hpr' hlink
  exact ⟨r', hr', hpr ▸ hpr'.1, hqr ▸ hqr'.2⟩

lemma mem_of_mem (h : Components ivs regions) (h' : Components ivs' regions')
    (hwf : WellFormed ivs) (hmem : ∀ p, p ∈ ivs ↔ p ∈ ivs') {r : α × α} (hr : r ∈ regions) :
    r ∈ regions' := by
  have hwf' : WellFormed ivs' := fun p hp => hwf p ((hmem p).mpr hp)
  obtain ⟨r', hr', hrr'⟩ := h.inside_region h' hwf hmem hr
  obtain ⟨s, hs, hr's⟩ := h'.inside_region h hwf' (fun p => (hmem p).symm) hr'
  have hle := h.separated.wellFormed r hr
  have heq : r = s := h.separated.eq_of_mem (a := r.1) hr hs ⟨le_refl _, hle⟩
    ⟨le_trans hr's.1 hrr'.1, le_trans hle (le_trans hrr'.2 hr's.2)⟩
  subst heq
  have hsame : r = r' :=
    Prod.ext (le_antisymm hr's.1 hrr'.1) (le_antisymm hrr'.2 hr's.2)
  exact hsame ▸ hr'

end Components

/-- **The components are determined by the set of intervals.** -/
theorem components_unique {ivs ivs' regions regions' : List (α × α)}
    (h : Components ivs regions) (h' : Components ivs' regions') (hwf : WellFormed ivs)
    (hmem : ∀ p, p ∈ ivs ↔ p ∈ ivs') : regions = regions' :=
  h.separated.ext h'.separated fun _ =>
    ⟨h.mem_of_mem h' hwf hmem,
      h'.mem_of_mem h (fun p hp => hwf p ((hmem p).mpr hp)) fun p => (hmem p).symm⟩

/-! ## Open and closed -/

omit [LinearOrder α] in
/-- A region is closed at the next endpoint or found later. -/
lemma mem_sweep_cons {n c : ℤ} {first p : α} {rest : List (α × ℤ)} {r : α × α}
    (hr : r ∈ sweep n first ((p, c) :: rest)) :
    (n + c = 0 ∧ r.2 = p) ∨ r ∈ sweep (n + c) (if n = 0 then p else first) rest := by
  simp only [sweep] at hr
  by_cases hclose : n + c = 0
  · rw [if_pos hclose] at hr
    rcases List.mem_cons.mp hr with rfl | hr
    · exact Or.inl ⟨hclose, rfl⟩
    · exact Or.inr hr
  · rw [if_neg hclose] at hr
    exact Or.inr hr

omit [LinearOrder α] in
lemma sweep_end : ∀ {es : List (α × ℤ)} {n : ℤ} {first : α}, ∀ r ∈ sweep n first es,
    r.2 ∈ es.map Prod.fst
  | [], _, _ => by simp [sweep]
  | (p, c) :: rest, n, first => by
      intro r hr
      rcases mem_sweep_cons hr with ⟨-, hrp⟩ | hr
      · simp [hrp]
      · exact List.mem_cons_of_mem _ (sweep_end r hr)

/-- The counter stands at zero behind the end of a region. -/
lemma sweep_closed : ∀ {es : List (α × ℤ)} {n : ℤ} {first : α}, Ascending n first es →
    ∀ r ∈ sweep n first es, n + countedWhere (· ≤ r.2) es = 0
  | [], _, _, _ => by simp [sweep]
  | (p, c) :: rest, n, first, h => by
      intro r hr
      rcases mem_sweep_cons hr with ⟨hclose, hrp⟩ | hr
      · have hzero : countedWhere (· ≤ r.2) rest = 0 := countedWhere_eq_zero fun k hk =>
          hrp ▸ not_le.mpr (h.lt_rest k hk)
        rw [countedWhere, if_pos (le_of_eq hrp.symm), hzero]
        omega
      · have ih := sweep_closed h.step r hr
        rw [countedWhere, if_pos (le_of_lt (h.lt_rest _ (sweep_end r hr)))]
        omega

/-- It does not before that end, from the begin of the region on. -/
lemma sweep_open : ∀ {es : List (α × ℤ)} {n : ℤ} {first : α}, Ascending n first es →
    ∀ r ∈ sweep n first es, ∀ a, r.1 ≤ a → a < r.2 → n + countedWhere (· ≤ a) es ≠ 0
  | [], _, _, _ => by simp [sweep]
  | (p, c) :: rest, n, first, h => by
      intro r hr a hra har
      rcases lt_or_ge a p with hap | hpa
      · -- all keys are to come, so the region was open before
        have hkeys : ∀ k ∈ ((p, c) :: rest).map Prod.fst, a < k := by
          intro k hk
          rcases List.mem_cons.mp hk with rfl | hk
          · exact hap
          · exact lt_trans hap (h.lt_rest k hk)
        have hn : n ≠ 0 := by
          rcases sweep_begin r hr with hm | ⟨hn, -⟩
          · exact absurd hra (not_le.mpr (hkeys _ hm))
          · exact hn
        rw [countedWhere_eq_zero fun k hk => not_le.mpr (hkeys k hk)]
        omega
      · rcases mem_sweep_cons hr with ⟨-, hrp⟩ | hr
        · exact absurd (hrp ▸ har) (not_lt.mpr hpa)
        · have ih := sweep_open h.step r hr a hra har
          rw [countedWhere, if_pos hpa]
          omega

/-- Where something is open all the way from `r.1` to `r.2`, the intervals between hang together:
the one that reaches farthest towards `q`, of those linked to `p`, reaches `q`. -/
lemma linked_of_open {ivs : List (α × α)} (hwf : WellFormed ivs) {r p q : α × α}
    (hopen : ∀ a, r.1 ≤ a → a < r.2 → ∃ u ∈ ivs, u.1 ≤ a ∧ a < u.2) (hp : p ∈ ivs) (hq : q ∈ ivs)
    (hpr : p.1 = r.1) (hqr : Inside q r) : Linked ivs p q := by
  let reached : Set (α × α) := {u | u ∈ ivs ∧ Linked ivs p u ∧ u.1 ≤ q.1}
  have hfin : reached.Finite := ivs.finite_toSet.subset fun u hu => hu.1
  have hself : p ∈ reached := ⟨hp, Relation.ReflTransGen.refl, hpr ▸ hqr.1⟩
  obtain ⟨m, ⟨hm, hlink, hmq⟩, hmax⟩ := Set.exists_max_image reached Prod.snd hfin ⟨p, hself⟩
  rcases lt_or_ge m.2 q.1 with hgap | hmeet
  · -- not at `q` yet: the interval open at its end reaches farther
    have hbegin : r.1 ≤ m.2 := hpr ▸ le_trans (hwf p hp) (hmax p hself)
    have hend : m.2 < r.2 := lt_of_lt_of_le hgap (le_trans (hwf q hq) hqr.2)
    obtain ⟨u, hu, hum, hmu⟩ := hopen m.2 hbegin hend
    have hnext : Linked ivs p u :=
      Relation.ReflTransGen.tail hlink ⟨hm, hu, le_trans (hwf m hm) (le_of_lt hmu), hum⟩
    have hle := hmax u ⟨hu, hnext, le_trans hum (le_of_lt hgap)⟩
    exact absurd hmu (not_lt.mpr hle)
  · exact Relation.ReflTransGen.tail hlink ⟨hm, hq, le_trans hmq (hwf q hq), hmeet⟩

/-! ## The whole pass -/

section Pass

variable {ivs : List (α × α)} {es : List (α × ℤ)}

/-- Inside a region, some interval goes on behind every place but the last. -/
lemma open_of_mem_sweep (h : EndpointTable ivs es) (hwf : WellFormed ivs) (first : α)
    {r : α × α} (hr : r ∈ sweep 0 first es) {a : α} (hra : r.1 ≤ a) (har : a < r.2) :
    ∃ u ∈ ivs, u.1 ≤ a ∧ a < u.2 := by
  have hne := sweep_open (h.ascending first) r hr a hra har
  rw [Int.zero_add, h.counted_eq_balance, balance_eq_countP hwf, Int.natCast_ne_zero,
    ← Nat.pos_iff_ne_zero, List.countP_pos_iff] at hne
  simpa only [decide_eq_true_eq] using hne

/-- And none does behind the last. -/
lemma closed_of_mem_sweep (h : EndpointTable ivs es) (hwf : WellFormed ivs) (first : α)
    {r u : α × α} (hr : r ∈ sweep 0 first es) (hu : u ∈ ivs) (hle : u.1 ≤ r.2) : u.2 ≤ r.2 := by
  have hzero := sweep_closed (h.ascending first) r hr
  rw [Int.zero_add, h.counted_eq_balance, balance_eq_countP hwf, Int.natCast_eq_zero,
    List.countP_eq_zero] at hzero
  by_contra hlt
  exact hzero u hu (by simp [hle, not_le.mp hlt])

/-- **The sweep finds the components.** -/
theorem sweep_components (h : EndpointTable ivs es) (hwf : WellFormed ivs) (first : α) :
    Components ivs (sweep 0 first es) where
  separated := sweep_separated h first
  covered := sweep_covered h hwf first
  inside := by
    intro p hp
    have hcov := (sweep_covered h hwf first p.1).mpr ⟨p, hp, le_refl _, hwf p hp⟩
    obtain ⟨r, hr, hb, he⟩ := hcov
    exact ⟨r, hr, hb, closed_of_mem_sweep h hwf first hr hp he⟩
  bounds := sweep_bounds h hwf first
  linked := by
    intro r hr p hp q hq hpr hqr
    obtain ⟨⟨u, hu, hur⟩, -⟩ := sweep_bounds h hwf first r hr
    have hopen := fun a => @open_of_mem_sweep _ _ _ _ h hwf first r hr a
    exact (linked_of_open hwf hopen hu hp hur hpr).symm.trans
      (linked_of_open hwf hopen hu hq hur hqr)

end Pass

end PerVERT
