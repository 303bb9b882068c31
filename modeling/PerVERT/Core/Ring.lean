import Mathlib.Data.Int.ModEq
import Mathlib.Data.List.Basic

/-!
# Queues in an array

A queue is kept in an array of `n` cells.  Two counters only go up, the one where the next value
goes and the one where the next value comes from, and each stands for the cell of its remainder.
Both can be lowered by `n` at once, so they need not grow.

* `ringValues cells tail head` — the values between the counters, oldest first.
* **`ringValues_push`**, **`ringValues_pop`**, **`ringValues_wrap`** — a value is put in, a value is
  taken out, the counters are lowered.
-/

namespace PerVERT

variable {α : Type*} {n : ℕ} [NeZero n]

/-- The values at the places from `tail` up to `head`, round the array. -/
def ringValues (cells : Vector α n) (tail head : ℕ) : List α :=
  (List.range' tail (head - tail)).map fun i => cells[Fin.ofNat n i]

section Ring

variable {cells : Vector α n} {tail head : ℕ}

@[simp] lemma ringValues_length (cells : Vector α n) (tail head : ℕ) :
    (ringValues cells tail head).length = head - tail := by
  simp [ringValues]

/-- Two places less than `n` apart are not the same cell. -/
lemma cell_ne_of_lt {i j : ℕ} (h : i < j) (hn : j < i + n) : Fin.ofNat n j ≠ Fin.ofNat n i := by
  intro heq
  have hmod : i ≡ j [MOD n] := (congrArg Fin.val heq).symm
  have hdvd : n ∣ j - i := (Nat.modEq_iff_dvd' (Nat.le_of_lt h)).mp hmod
  have hle := Nat.le_of_dvd (by omega) hdvd
  omega

/-- **A value is put in** where there is room. -/
lemma ringValues_push (h : tail ≤ head) (hroom : head - tail < n) (x : α) :
    ringValues (cells.set (Fin.ofNat n head) x (Fin.ofNat n head).isLt) tail (head + 1)
      = ringValues cells tail head ++ [x] := by
  have hplaces : List.range' tail (head + 1 - tail) = List.range' tail (head - tail) ++ [head] := by
    rw [Nat.sub_add_comm h, List.range'_concat, Nat.one_mul, Nat.add_sub_cancel' h]
  rw [ringValues, ringValues, hplaces, List.map_append, List.map_singleton]
  congr 1
  · refine List.map_congr_left fun i hi => ?_
    have hlt := (List.mem_range'_1.mp hi).2
    have hle := (List.mem_range'_1.mp hi).1
    have hne := @cell_ne_of_lt n _ i head (by omega) (by omega)
    rw [Fin.getElem_fin, Fin.getElem_fin,
      Vector.getElem_set_ne _ _ fun heq => hne (Fin.ext heq)]
  · rw [Fin.getElem_fin, Vector.getElem_set_self]

/-- **The oldest value** comes first. -/
lemma ringValues_pop (h : tail < head) :
    ringValues cells tail head = cells[Fin.ofNat n tail] :: ringValues cells (tail + 1) head := by
  rw [ringValues, ringValues, show head - tail = (head - (tail + 1)) + 1 by omega, List.range'_succ,
    List.map_cons]

/-- **The counters** can be lowered by the size of the array. -/
lemma ringValues_wrap (hn : n ≤ tail) :
    ringValues cells (tail - n) (head - n) = ringValues cells tail head := by
  have hplaces : List.range' tail (head - tail)
      = (List.range' (tail - n) (head - n - (tail - n))).map (n + ·) := by
    rw [List.map_add_range', Nat.add_sub_cancel' hn]
    congr 1
    omega
  rw [ringValues, ringValues, hplaces, List.map_map]
  refine List.map_congr_left fun i _ => ?_
  have hcell : Fin.ofNat n (n + i) = Fin.ofNat n i := Fin.ext (Nat.add_mod_left n i)
  simp only [Function.comp_apply, hcell]

end Ring

end PerVERT
