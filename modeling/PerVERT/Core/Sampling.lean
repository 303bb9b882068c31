import Mathlib.Algebra.Order.Ring.Nat
import Mathlib.Data.List.Basic

/-!
# Every n-th element of a list

A list that is too long to be shown is thinned out: with a budget of `b` entries for `n` elements
the stride is `n / b + 1`.  The quotient is rounded down and the number of entries up.

* `everyNth d k l` — every `d`-th element, once `k` are skipped.
* **`everyNth_getElem?`** — the entries are the elements at `k`, `k + d`, `k + 2 * d`, ...; all that
  is said of their number comes from it (`lt_everyNth_length`).
* **`everyNth_length_le`**, **`le_everyNth_length`** — the budget is kept, and half of it is used
  when there are enough elements.
-/

namespace PerVERT

section EveryNth

variable {α : Type*} {d k j : ℕ} {l : List α}

/-- Every `d`-th element, once `k` are skipped. -/
def everyNth (d : ℕ) : ℕ → List α → List α
  | _, [] => []
  | 0, a :: l => a :: everyNth d (d - 1) l
  | k + 1, _ :: l => everyNth d k l

@[simp] lemma everyNth_nil (d k : ℕ) : everyNth d k ([] : List α) = [] := by
  simp [everyNth]

@[simp] lemma everyNth_zero_cons (d : ℕ) (a : α) (l : List α) :
    everyNth d 0 (a :: l) = a :: everyNth d (d - 1) l := rfl

@[simp] lemma everyNth_succ_cons (d k : ℕ) (a : α) (l : List α) :
    everyNth d (k + 1) (a :: l) = everyNth d k l := rfl

/-- **Which elements are taken.** -/
theorem everyNth_getElem? (hd : 0 < d) : (everyNth d k l)[j]? = l[k + j * d]? := by
  induction l generalizing k j with
  | nil => simp
  | cons a l ih =>
      cases k with
      | zero =>
          cases j with
          | zero => simp
          | succ j =>
              have hindex : 0 + (j + 1) * d = d - 1 + j * d + 1 := by
                rw [Nat.succ_mul]
                omega
              rw [everyNth_zero_cons, List.getElem?_cons_succ, ih, hindex, List.getElem?_cons_succ]
      | succ k =>
          have hindex : k + 1 + j * d = k + j * d + 1 := by omega
          rw [everyNth_succ_cons, ih, hindex, List.getElem?_cons_succ]

lemma everyNth_sublist : (everyNth d k l).Sublist l := by
  induction l generalizing k with
  | nil => simp
  | cons a l ih =>
      cases k with
      | zero => exact ih.cons_cons a
      | succ k => exact ih.cons a

lemma everyNth_head? : (everyNth d 0 l).head? = l.head? := by
  cases l <;> simp

/-! ## The number of entries -/

/-- There is an entry number `j` just if there is an element for it. -/
lemma lt_everyNth_length (hd : 0 < d) : j < (everyNth d k l).length ↔ k + j * d < l.length := by
  rw [← Nat.not_le, ← Nat.not_le, ← List.getElem?_eq_none_iff, ← List.getElem?_eq_none_iff,
    everyNth_getElem? hd]

/-- **The budget is kept.** -/
theorem everyNth_length_le {b : ℕ} (hb : 0 < b) :
    (everyNth (l.length / b + 1) 0 l).length ≤ b := by
  rw [← Nat.not_lt, lt_everyNth_length (Nat.succ_pos _), Nat.zero_add, Nat.not_lt]
  exact Nat.le_of_lt (Nat.lt_mul_div_succ l.length hb)

/-- **Half of the budget is used**, unless all elements are taken. -/
theorem le_everyNth_length {b : ℕ} :
    min l.length ((b + 1) / 2) ≤ (everyNth (l.length / b + 1) 0 l).length := by
  cases hm : min l.length ((b + 1) / 2) with
  | zero => exact Nat.zero_le _
  | succ m =>
      have hlength : m < l.length := by omega
      have hhalf : 2 * m < b := by omega
      rw [Nat.succ_le_iff, lt_everyNth_length (Nat.succ_pos _), Nat.zero_add]
      rcases Nat.eq_zero_or_pos (l.length / b) with hq | hq
      · rw [hq]
        omega
      · -- here `n / b + 1` is at most twice `n / b`
        have hstride : m * (l.length / b + 1) ≤ m * (2 * (l.length / b)) :=
          Nat.mul_le_mul_left m (by omega)
        have htwice : 2 * m * (l.length / b) < b * (l.length / b) :=
          Nat.mul_lt_mul_of_pos_right hhalf hq
        calc m * (l.length / b + 1) ≤ m * (2 * (l.length / b)) := hstride
          _ = 2 * m * (l.length / b) := by rw [Nat.mul_left_comm, Nat.mul_assoc]
          _ < b * (l.length / b) := htwice
          _ ≤ l.length := Nat.mul_div_le _ _

/-- Both bounds are reached. -/
example : (everyNth (32 / 32 + 1) 0 (List.range 32)).length = 16 ∧
    (everyNth (63 / 32 + 1) 0 (List.range 63)).length = 32 := by decide

end EveryNth

end PerVERT
