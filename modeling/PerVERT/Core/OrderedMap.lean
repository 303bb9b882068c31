import Mathlib.Order.Compare
import Mathlib.Data.List.Sort

/-!
# `std::map` as `Std.TreeMap`

`Std.TreeMap` iterates in ascending order of keys, as `std::map` does.  This file adds what a
program that *iterates* over such a map needs on top of the lookup lemmas of the library: the
entries are strictly sorted, a sorted list of entries is determined by its members, inserting a
key beyond all others appends, and keys that are renamed in their order leave the values in theirs
(`Renames`).

`UInt64` is given the linear order its comparison operators already decide, so that the interval
library applies to machine addresses.
-/

namespace PerVERT

instance instLinearOrderUInt64 : LinearOrder UInt64 where
  le_refl := UInt64.le_refl
  le_trans := fun _ _ _ => UInt64.le_trans
  le_antisymm := fun _ _ => UInt64.le_antisymm
  le_total := UInt64.le_total
  lt_iff_le_not_ge := fun a b => by
    rw [UInt64.lt_iff_toNat_lt, UInt64.le_iff_toNat_le, UInt64.le_iff_toNat_le]; omega
  toDecidableLE := inferInstance
  toDecidableLT := inferInstance
  toDecidableEq := inferInstance
  compare := compare
  compare_eq_compareOfLessAndEq := fun _ _ => rfl
  min := min
  max := max
  min_def := fun _ _ => rfl
  max_def := fun _ _ => rfl

variable {κ ν : Type*} [LinearOrder κ]

lemma toList_sorted [Std.TransOrd κ] (m : Std.TreeMap κ ν) :
    m.toList.Pairwise fun p q => p.1 < q.1 :=
  m.ordered_keys_toList.imp fun h => compare_lt_iff_lt.mp h

lemma eq_of_sorted_of_mem_iff {l₁ l₂ : List (κ × ν)} (h₁ : l₁.Pairwise fun p q => p.1 < q.1)
    (h₂ : l₂.Pairwise fun p q => p.1 < q.1) (h : ∀ p, p ∈ l₁ ↔ p ∈ l₂) : l₁ = l₂ := by
  have hnodup : ∀ {l : List (κ × ν)}, (l.Pairwise fun p q => p.1 < q.1) → l.Nodup := fun hl =>
    hl.imp fun {p q} hpq => fun heq => lt_irrefl p.1 (heq ▸ hpq)
  have hperm : l₁.Perm l₂ := (List.perm_ext_iff_of_nodup (hnodup h₁) (hnodup h₂)).mpr h
  exact hperm.eq_of_pairwise (fun p q _ _ hpq hqp => absurd hpq (lt_asymm hqp)) h₁ h₂

variable [Std.TransOrd κ]

/-! ## Renamed keys -/

/-- The second map is the first one with its keys, which satisfy `P`, renamed by `g`. -/
structure Renames (P : κ → Prop) (g : κ → κ) (m m' : Std.TreeMap κ ν) : Prop where
  known : ∀ k ∈ m, P k
  image : ∀ k' ∈ m', ∃ k, P k ∧ g k = k'
  getElem? : ∀ k, P k → m'[g k]? = m[k]?

section Renames

variable {P : κ → Prop} {g : κ → κ} {m m' : Std.TreeMap κ ν}

lemma renames_empty : Renames P g ({} : Std.TreeMap κ ν) {} := by
  constructor <;> simp

lemma Renames.insert (h : Renames P g m m') (hg : ∀ a b, P a → P b → g a = g b → a = b) {k : κ}
    (hk : P k) (v : ν) : Renames P g (m.insert k v) (m'.insert (g k) v) := by
  constructor
  · intro a ha
    rcases Std.TreeMap.mem_insert.mp ha with heq | ha
    · rwa [← compare_eq_iff_eq.mp heq]
    · exact h.known a ha
  · intro a ha
    rcases Std.TreeMap.mem_insert.mp ha with heq | ha
    · exact ⟨k, hk, compare_eq_iff_eq.mp heq⟩
    · exact h.image a ha
  · intro a ha
    have hsame : g k = g a ↔ k = a := ⟨hg k a hk ha, congrArg g⟩
    simp only [Std.TreeMap.getElem?_insert, compare_eq_iff_eq, hsame, h.getElem? a ha]

lemma Renames.erase (h : Renames P g m m') (hg : ∀ a b, P a → P b → g a = g b → a = b) {k : κ}
    (hk : P k) : Renames P g (m.erase k) (m'.erase (g k)) := by
  constructor
  · intro a ha
    exact h.known a (Std.TreeMap.mem_of_mem_erase ha)
  · intro a ha
    exact h.image a (Std.TreeMap.mem_of_mem_erase ha)
  · intro a ha
    have hsame : g k = g a ↔ k = a := ⟨hg k a hk ha, congrArg g⟩
    simp only [Std.TreeMap.getElem?_erase, compare_eq_iff_eq, hsame, h.getElem? a ha]

lemma Renames.mem_iff (h : Renames P g m m') {k : κ} (hk : P k) : g k ∈ m' ↔ k ∈ m := by
  rw [Std.TreeMap.mem_iff_isSome_getElem?, h.getElem? k hk, ← Std.TreeMap.mem_iff_isSome_getElem?]

end Renames

/-! ## Entries -/

variable [Std.LawfulEqOrd κ]

lemma mem_toList_iff (m : Std.TreeMap κ ν) (p : κ × ν) : p ∈ m.toList ↔ m[p.1]? = some p.2 :=
  Std.TreeMap.mem_toList_iff_getElem?_eq_some

lemma toList_insert_of_lt (m : Std.TreeMap κ ν) (k : κ) (v : ν) (h : ∀ p ∈ m.toList, p.1 < k) :
    (m.insert k v).toList = m.toList ++ [(k, v)] := by
  refine eq_of_sorted_of_mem_iff (toList_sorted _) ?_ fun p => ?_
  · rw [List.pairwise_append]
    exact ⟨toList_sorted m, List.pairwise_singleton _ _,
      fun p hp q hq => by rw [List.mem_singleton.mp hq]; exact h p hp⟩
  · rw [mem_toList_iff, Std.TreeMap.getElem?_insert, List.mem_append, List.mem_singleton,
      mem_toList_iff]
    by_cases hk : k = p.1
    · have hnone : m[p.1]? ≠ some p.2 := fun hs =>
        lt_irrefl p.1 (hk ▸ h p ((mem_toList_iff m p).mpr hs))
      simp only [hk, compare_eq_iff_eq.mpr, if_true, Option.some.injEq, hnone, false_or]
      exact ⟨fun hv => Prod.ext rfl hv.symm, fun hp => by rw [hp]⟩
    · simp only [compare_eq_iff_eq, hk, if_false]
      exact ⟨Or.inl, fun hor => hor.resolve_right fun hp => hk (by rw [hp])⟩

/-- **The order is kept.** -/
theorem Renames.toList {P : κ → Prop} {g : κ → κ} {m m' : Std.TreeMap κ ν}
    (h : Renames P g m m') (hg : ∀ a b, P a → P b → a < b → g a < g b) :
    m'.toList = m.toList.map fun p => (g p.1, p.2) := by
  have hknown : ∀ p ∈ m.toList, P p.1 := fun p hp => h.known p.1 (by
    rw [Std.TreeMap.mem_iff_isSome_getElem?, (mem_toList_iff m p).mp hp]
    rfl)
  refine eq_of_sorted_of_mem_iff (toList_sorted _) ?_ fun p => ?_
  · rw [List.pairwise_map]
    exact (toList_sorted m).imp_of_mem fun hp hq hlt => hg _ _ (hknown _ hp) (hknown _ hq) hlt
  · rw [List.mem_map]
    constructor
    · intro hp
      have hget := (mem_toList_iff m' p).mp hp
      obtain ⟨k, hk, heq⟩ := h.image p.1 (by
        rw [Std.TreeMap.mem_iff_isSome_getElem?, hget]
        rfl)
      rw [← heq, h.getElem? k hk] at hget
      exact ⟨(k, p.2), (mem_toList_iff m (k, p.2)).mpr hget, by rw [heq]⟩
    · rintro ⟨q, hq, rfl⟩
      rw [mem_toList_iff, h.getElem? q.1 (hknown q hq)]
      exact (mem_toList_iff m q).mp hq

end PerVERT
