import PerVERT.Backend.ContextViews
import Mathlib.Algebra.Ring.Int.Defs

/-!
# The strides in the histogram

`/f/context_histo` counts the distances between consecutive accesses of a context in ten bins, each
four times as wide as the one before.  The search for the bin is a loop of ten rounds, and a stride
for which it ends without a hit is not counted.

* `strides` — the distances; `InBin` — the range of a bin, `findBin_eq_some` its search.
* `countStrides_eq_ok` — the loop over the context counts strides, bin by bin.
* **`f_context_histo_counts_iff`** — the bins sum to the number of strides just if each is below
  `5 * 4 ^ 9` and no bin gets more of them than an `int` can count.
-/

namespace PerVERT

/-! ## Bins -/

/-- The distances between consecutive addresses. -/
def strides : List ℕ → List ℕ
  | a :: b :: rest => ((b : ℤ) - a).natAbs :: strides (b :: rest)
  | _ => []

lemma strides_length : ∀ as : List ℕ, (strides as).length = as.length - 1
  | [] | [_] => rfl
  | a :: b :: rest => by
      rw [strides, List.length_cons, strides_length (b :: rest), List.length_cons,
        List.length_cons]
      rfl

/-- The strides that bin `k` is for. -/
def InBin (k s : ℕ) : Prop :=
  s < 5 * 4 ^ k ∧ (k ≠ 0 → 5 * 4 ^ (k - 1) ≤ s)

instance (k s : ℕ) : Decidable (InBin k s) :=
  inferInstanceAs (Decidable (_ ∧ (_ → _)))

lemma inBin_zero {s : ℕ} : InBin 0 s ↔ s ≤ 4 := by
  simp only [InBin, pow_zero, ne_eq, not_true_eq_false, false_implies, and_true]
  omega

lemma inBin_succ {k s : ℕ} (h : ¬ s ≤ 4) : InBin (k + 1) s ↔ InBin k (s / 4) := by
  cases k with
  | zero =>
      simp only [InBin]
      omega
  | succ k =>
      simp only [InBin, pow_succ]
      simp
      omega

/-- **The search for the bin.** -/
lemma findBin_eq_some {s : ℕ} : ∀ {n i j : ℕ},
    findBin s n i = some j ↔ ∃ k, k < n ∧ j = i + k ∧ InBin k s := by
  intro n
  induction n generalizing s with
  | zero => simp [findBin]
  | succ n ih =>
      intro i j
      rw [findBin]
      by_cases hs : s ≤ 4
      · rw [if_pos (by omega)]
        constructor
        · intro h
          cases h
          exact ⟨0, Nat.succ_pos n, rfl, inBin_zero.mpr hs⟩
        · rintro ⟨k, -, rfl, hbin⟩
          cases k with
          | zero => rfl
          | succ k =>
              have hle : 5 * 4 ^ k ≤ s := hbin.2 (Nat.succ_ne_zero k)
              have hpos : 0 < 4 ^ k := Nat.pow_pos (by decide)
              omega
      · rw [if_neg (by omega)]
        have hshift : (s : ℤ) >>> (2 : ℕ) = ((s / 4 : ℕ) : ℤ) := by
          rw [Int.shiftRight_eq_div_pow]
          norm_cast
        rw [hshift, ih]
        constructor
        · rintro ⟨k, hk, rfl, hbin⟩
          exact ⟨k + 1, by omega, by omega, (inBin_succ hs).mpr hbin⟩
        · rintro ⟨k, hk, rfl, hbin⟩
          cases k with
          | zero => exact absurd (inBin_zero.mp hbin) hs
          | succ k => exact ⟨k, by omega, by omega, (inBin_succ hs).mp hbin⟩

/-! ## Counting -/

/-- How many strides are for bin `k`. -/
def binCount (ss : List ℕ) (k : ℕ) : ℕ :=
  ss.countP fun s => InBin k s

/-- What the ten bins should hold. -/
def binCounts (ss : List ℕ) : List ℤ :=
  (List.range 10).map fun k => (binCount ss k : ℤ)

lemma binCount_append (ss : List ℕ) (s k : ℕ) :
    binCount (ss ++ [s]) k = binCount ss k + if InBin k s then 1 else 0 := by
  simp [binCount, List.countP_append, List.countP_singleton]

lemma inBin_unique {j k s : ℕ} (hj : InBin j s) (hk : InBin k s) : j = k := by
  have hpow : ∀ {a b : ℕ}, a < b → InBin a s → InBin b s → False := by
    intro a b hlt ha hb
    have hle : 5 * 4 ^ (b - 1) ≤ s := hb.2 (by omega)
    have hmono : 4 ^ a ≤ 4 ^ (b - 1) := Nat.pow_le_pow_right (by decide) (by omega)
    have := ha.1
    omega
  rcases Nat.lt_trichotomy j k with h | h | h
  · exact absurd (hpow h hj hk) id
  · exact h
  · exact absurd (hpow h hk hj) id

/-- A stride that is in no bin changes nothing. -/
lemma binCounts_append_of_missed {ss : List ℕ} {s : ℕ} (h : ∀ k, k < 10 → ¬ InBin k s) :
    binCounts (ss ++ [s]) = binCounts ss := by
  refine List.map_congr_left fun k hk => ?_
  rw [binCount_append, if_neg (h k (List.mem_range.mp hk)), Nat.add_zero]

/-- A stride changes the bin it is in. -/
lemma binCounts_append_of_inBin {ss : List ℕ} {s j : ℕ} (hin : InBin j s) :
    binCounts (ss ++ [s]) = (binCounts ss).set j ((binCount ss j : ℤ) + 1) := by
  refine List.ext_getElem (by simp [binCounts]) fun i hi hi' => ?_
  rw [List.getElem_set]
  split_ifs with hij
  · subst hij
    simp [binCounts, binCount_append, hin]
  · have hout : ¬ InBin i s := fun h => hij (inBin_unique hin h)
    simp [binCounts, binCount_append, hout]

/-- **One more stride.** -/
lemma countDelta_eq_ok {ss : List ℕ} {s : ℕ} {histogram : List ℤ} :
    countDelta s (binCounts ss) = .ok histogram ↔
      (∀ k, k < 10 → InBin k s → binCount ss k + 1 < 2 ^ 31) ∧
        histogram = binCounts (ss ++ [s]) := by
  rw [countDelta]
  cases hbin : findBin s 10 0 with
  | none =>
      have hnone : ∀ k, k < 10 → ¬ InBin k s := by
        intro k hk h
        have hsome : findBin s 10 0 = some k := findBin_eq_some.mpr ⟨k, hk, by omega, h⟩
        rw [hbin] at hsome
        cases hsome
      rw [binCounts_append_of_missed hnone]
      exact ⟨fun h => ⟨fun k hk h' => absurd h' (hnone k hk), (Except.ok.inj h).symm⟩,
        fun h => by rw [h.2]; rfl⟩
  | some j =>
      obtain ⟨k, hk, hj, hin⟩ := findBin_eq_some.mp hbin
      obtain rfl : j = k := by omega
      have hget : (binCounts ss)[j]? = some (binCount ss j : ℤ) := by
        simp [binCounts, hk]
      show (vectorAt (binCounts ss) j >>= fun c => intAdd c 1 >>= fun c =>
        pure ((binCounts ss).set j c)) = _ ↔ _
      rw [vectorAt_of_getElem? hget, checked_ok_bind, checked_bind_eq_ok]
      constructor
      · rintro ⟨c, hc, h⟩
        obtain ⟨hfits, rfl⟩ := intAdd_eq_ok.mp hc
        refine ⟨fun i hi hini => ?_, ?_⟩
        · obtain rfl := inBin_unique hin hini
          have := hfits.2
          omega
        · rw [binCounts_append_of_inBin hin]
          exact (Except.ok.inj h).symm
      · rintro ⟨hfits, rfl⟩
        have := hfits j hk hin
        rw [binCounts_append_of_inBin hin]
        exact ⟨_, intAdd_eq_ok.mpr ⟨by rw [InInt]; omega, rfl⟩, rfl⟩

/-- The strides one after the other. -/
def countStrides (ss : List ℕ) : Checked (List ℤ) :=
  ss.foldlM (fun histogram (s : ℕ) => countDelta s histogram) (List.replicate 10 0)

/-- **What the bins hold**, and when they can. -/
lemma countStrides_eq_ok {ss : List ℕ} {histogram : List ℤ} :
    countStrides ss = .ok histogram ↔
      (∀ k, k < 10 → binCount ss k < 2 ^ 31) ∧ histogram = binCounts ss := by
  induction ss using List.reverseRecOn generalizing histogram with
  | nil =>
      have hzero : binCounts [] = List.replicate 10 0 := by decide
      rw [hzero]
      exact ⟨fun h => ⟨fun k _ => by simp [binCount], (Except.ok.inj h).symm⟩,
        fun h => by rw [h.2]; rfl⟩
  | append_singleton ss s ih =>
      have hfold : countStrides (ss ++ [s]) = countStrides ss >>= countDelta (s : ℤ) := by
        simp [countStrides, List.foldlM_append]
      rw [hfold, checked_bind_eq_ok]
      constructor
      · rintro ⟨before, hbefore, h⟩
        obtain ⟨hfits, rfl⟩ := ih.mp hbefore
        obtain ⟨hlast, rfl⟩ := countDelta_eq_ok.mp h
        refine ⟨fun k hk => ?_, rfl⟩
        rw [binCount_append]
        split_ifs with hin
        · exact hlast k hk hin
        · exact hfits k hk
      · rintro ⟨hfits, rfl⟩
        have hbefore : ∀ k, k < 10 → binCount ss k < 2 ^ 31 := by
          intro k hk
          have := hfits k hk
          rw [binCount_append] at this
          omega
        refine ⟨_, ih.mpr ⟨hbefore, rfl⟩, countDelta_eq_ok.mpr ⟨fun k hk hin => ?_, rfl⟩⟩
        have := hfits k hk
        rwa [binCount_append, if_pos hin] at this

/-- A stride below the last bound is in one of the bins. -/
lemma sum_inBin (s : ℕ) : ∀ n : ℕ, ((List.range (n + 1)).map fun k =>
    if InBin k s then (1 : ℤ) else 0).sum = if s < 5 * 4 ^ n then 1 else 0
  | 0 => by simp [InBin]
  | n + 1 => by
      have hwider : 5 * 4 ^ (n + 1) = 4 * (5 * 4 ^ n) := by rw [pow_succ]; omega
      have hlast : InBin (n + 1) s ↔ s < 5 * 4 ^ (n + 1) ∧ 5 * 4 ^ n ≤ s := by simp [InBin]
      rw [List.range_succ, List.map_append, List.sum_append, sum_inBin s n, List.map_singleton,
        List.sum_singleton]
      simp only [hlast]
      split_ifs <;> omega

/-- **What the bins sum to.** -/
lemma binCounts_sum (ss : List ℕ) :
    (binCounts ss).sum = ss.countP fun s => s < 5 * 4 ^ 9 := by
  induction ss using List.reverseRecOn with
  | nil => decide
  | append_singleton ss s ih =>
      have hsplit : binCounts (ss ++ [s]) = (List.range 10).map fun k =>
          (binCount ss k : ℤ) + if InBin k s then 1 else 0 := by
        refine List.map_congr_left fun k _ => ?_
        rw [binCount_append]
        split_ifs <;> rfl
      rw [hsplit, List.sum_map_add, sum_inBin s 9, ← binCounts, ih, List.countP_append,
        List.countP_singleton]
      simp only [decide_eq_true_eq]
      split_ifs <;> rfl

/-! ## The loop over the context -/

/-- The remapped addresses of a context, in its order. -/
def contextAddresses (t : Trace) (context : Text) : List ℕ :=
  (contextEvents t context).map fun e => e.arg1.toNat

/-- Behind the first access the loop counts the strides. -/
lemma histoLoop_eq : ∀ {es : List Event} {a : ℕ} {histogram : List ℤ}, a < 2 ^ 31 →
    (∀ e ∈ es, e.arg1.toNat < 2 ^ 31) → histoLoop es a histogram =
      (strides (a :: es.map fun e => e.arg1.toNat)).foldlM
        (fun histogram (s : ℕ) => countDelta s histogram) histogram
  | [], _, _, _, _ => rfl
  | e :: es, a, histogram, ha, h => by
      have he := h e List.mem_cons_self
      have haddr : toInt e.arg1.toNat = e.arg1.toNat := toInt_of_inInt (by rw [InInt]; omega)
      obtain ⟨hdifference, hdelta⟩ := @distance_eq e.arg1.toNat a he (by omega) (by omega)
      rw [histoLoop]
      simp only [haddr]
      rw [if_neg (by omega), hdifference, checked_ok_bind, hdelta, checked_ok_bind,
        List.map_cons, strides, List.foldlM_cons]
      exact bind_congr fun histogram' =>
        histoLoop_eq he fun x hx => h x (List.mem_cons_of_mem _ hx)

/-- From the start, where `-1` stands for no access before. -/
lemma histoLoop_start {es : List Event} (h : ∀ e ∈ es, e.arg1.toNat < 2 ^ 31) :
    histoLoop es (-1) (List.replicate 10 0)
      = countStrides (strides (es.map fun e => e.arg1.toNat)) := by
  cases es with
  | nil => rfl
  | cons e es =>
      have he := h e List.mem_cons_self
      have haddr : toInt e.arg1.toNat = e.arg1.toNat := toInt_of_inInt (by rw [InInt]; omega)
      rw [histoLoop]
      simp only [haddr, if_true]
      exact histoLoop_eq he fun x hx => h x (List.mem_cons_of_mem _ hx)

/-! ## The handler -/

section Handler

variable {t : Trace} {f : ℕ} {e : Event}

/-- An access in range is answered by the loop over its context. -/
lemma f_context_histo_eq (hf : f < 2 ^ 31) (hget : t.events[f]? = some e)
    (haccess : e.isAccess = true) :
    f_context_histo t f = histoLoop (contextEvents t e.context) (-1) (List.replicate 10 0)
      >>= fun histogram => pure (some histogram) := by
  rw [f_context_histo, if_neg (frame_passes hf hget), vectorAt_of_getElem? hget,
    checked_ok_bind, if_pos haccess]

/-- No stride is too long for the last bin, and no bin is too full for an `int`. -/
structure StridesCounted (ss : List ℕ) : Prop where
  bound : ∀ s ∈ ss, s < 5 * 4 ^ 9
  counters : ∀ k, k < 10 → binCount ss k < 2 ^ 31

instance (ss : List ℕ) : Decidable (StridesCounted ss) :=
  decidable_of_iff ((∀ s ∈ ss, s < 5 * 4 ^ 9) ∧ ∀ k, k < 10 → binCount ss k < 2 ^ 31)
    ⟨fun h => ⟨h.1, h.2⟩, fun h => ⟨h.bound, h.counters⟩⟩

/-- **Every stride is counted** just if none is too long and no bin too full.  The ten bins grow by
factors of four, and a stride behind the last of them is counted nowhere; only then, or when a bin
overflows, do the bins not add up to the number of strides of the context. -/
theorem f_context_histo_counts_iff (hloaded : Loaded t) (hf : f < 2 ^ 31)
    (hget : t.events[f]? = some e) (haccess : e.isAccess = true)
    (haddress : ∀ x ∈ contextEvents t e.context, x.arg1.toNat < 2 ^ 31) :
    (∃ histogram, f_context_histo t f = .ok (some histogram) ∧ histogram.length = 10 ∧
      histogram.sum = (contextEvents t e.context).length - 1) ↔
      StridesCounted (strides (contextAddresses t e.context)) := by
  have hself : e ∈ contextEvents t e.context := by
    rw [contextEvents_eq hloaded, List.mem_filter]
    exact ⟨List.mem_of_getElem? hget, by simp⟩
  have hpos : 0 < (contextEvents t e.context).length := List.length_pos_of_mem hself
  have hlength : (strides (contextAddresses t e.context)).length
      = (contextEvents t e.context).length - 1 := by
    rw [strides_length, contextAddresses, List.length_map]
  have hall : (binCounts (strides (contextAddresses t e.context))).sum
      = (contextEvents t e.context).length - 1 ↔
      ∀ s ∈ strides (contextAddresses t e.context), s < 5 * 4 ^ 9 := by
    have hcount := @List.countP_eq_length _ (strides (contextAddresses t e.context))
      fun s => decide (s < 5 * 4 ^ 9)
    simp only [decide_eq_true_eq] at hcount
    rw [← hcount, binCounts_sum, hlength]
    omega
  rw [f_context_histo_eq hf hget haccess, histoLoop_start haddress]
  constructor
  · rintro ⟨histogram, h, -, hsum⟩
    obtain ⟨histogram', h', hsome⟩ := checked_bind_eq_ok.mp h
    cases hsome
    obtain ⟨hfits, rfl⟩ := countStrides_eq_ok.mp h'
    exact ⟨hall.mp hsum, hfits⟩
  · rintro ⟨hbound, hfits⟩
    refine ⟨_, checked_bind_eq_ok.mpr ⟨_, countStrides_eq_ok.mpr ⟨hfits, rfl⟩, rfl⟩, ?_,
      hall.mpr hbound⟩
    simp [binCounts]

end Handler

/-- A block of two megabytes, read at its begin and then at this address of it. -/
def twoReads (address : Text) : Text :=
  "M 0x100000 0x300000 0x10 0x11\nR 0x100000 0x12 0x11\nR ".toList ++ address ++
    " 0x12 0x11\nE \n".toList

/-- The second event is an access, and these are the addresses of its context. -/
def ReadsAt (as : List ℕ) (t : Trace) : Bool :=
  t.events[1]?.any fun e => e.isAccess ∧ contextAddresses t e.context = as

lemma event_of_readsAt {as : List ℕ} {t : Trace} (h : ReadsAt as t = true)
    (hsmall : ∀ a ∈ as, a < 2 ^ 31) :
    ∃ e, t.events[1]? = some e ∧ e.isAccess = true ∧ contextAddresses t e.context = as ∧
      ∀ x ∈ contextEvents t e.context, x.arg1.toNat < 2 ^ 31 := by
  obtain ⟨e, he, haccess, has⟩ : ∃ e, t.events[1]? = some e ∧ e.isAccess = true ∧
      contextAddresses t e.context = as := by
    simpa [ReadsAt, Option.any_eq_true] using h
  refine ⟨e, he, haccess, has, fun x hx => hsmall _ ?_⟩
  rw [← has]
  exact List.mem_map.mpr ⟨x, hx, rfl⟩

/-- The longest stride that is counted. -/
theorem longestStride_counted : ∃ t e, Loaded t ∧ t.events[1]? = some e ∧
    contextAddresses t e.context = [0, 5 * 4 ^ 9 - 1] ∧ ∃ histogram,
      f_context_histo t (1 : ℕ) = .ok (some histogram) ∧ histogram.length = 10 ∧
        histogram.sum = (contextEvents t e.context).length - 1 := by
  obtain ⟨t, ht, hreads⟩ := @exists_loaded 10 ⟨'?', 0⟩ ⟨[], 0, 0⟩ (some goodLines)
    (some (twoReads "0x23ffff".toList)) (ReadsAt [0, 5 * 4 ^ 9 - 1]) (by decide +kernel)
  obtain ⟨e, he, haccess, has, hsmall⟩ := event_of_readsAt hreads (by decide)
  refine ⟨t, e, ht, he, has, (f_context_histo_counts_iff ht (by decide) he haccess hsmall).mpr ?_⟩
  rw [has]
  decide

/-- One byte more, and the stride is in no bin. -/
theorem longStride_not_counted : ∃ t e, Loaded t ∧ t.events[1]? = some e ∧ e.isAccess = true ∧
    (contextEvents t e.context).length = 2 ∧
      (∀ x ∈ contextEvents t e.context, x.arg1.toNat < 2 ^ 31) ∧
      f_context_histo t (1 : ℕ) = .ok (some (List.replicate 10 0)) := by
  obtain ⟨t, ht, hreads⟩ := @exists_loaded 10 ⟨'?', 0⟩ ⟨[], 0, 0⟩ (some goodLines)
    (some (twoReads "0x240000".toList)) (ReadsAt [0, 5 * 4 ^ 9]) (by decide +kernel)
  obtain ⟨e, he, haccess, has, hsmall⟩ := event_of_readsAt hreads (by decide)
  refine ⟨t, e, ht, he, haccess, ?_, hsmall, ?_⟩
  · rw [← List.length_map (fun x : Event => x.arg1.toNat), ← contextAddresses, has]
    rfl
  · rw [f_context_histo_eq (by decide) he haccess, histoLoop_start hsmall, ← contextAddresses, has]
    rfl

end PerVERT
