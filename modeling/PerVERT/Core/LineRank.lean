import Mathlib.Data.Nat.Count
import Mathlib.Order.Interval.Finset.Nat

/-!
# Dropping the untouched lines of an address space

Cut the natural numbers into lines of `L` consecutive addresses.  Given a set `cov` of addresses
in use, drop every line that holds none of them and number the remaining lines from `0`.
`compress L cov` sends an address to the same offset on its renumbered line.

* `lineRank L cov a` — the number of lines strictly below `a`'s own that hold an address in use.
* `compress L cov a = L * lineRank L cov a + a % L`.
* **`compress_strictMono`**, `compress_mod`, **`compress_div_eq_iff`** — on the addresses in use
  the map is strictly increasing, keeps every offset, and two addresses share a line after it
  exactly when they did before.
* **`compress_add`**, **`compress_gap`** — how the map moves along a run of addresses in use and
  across a gap.  These two rules determine the map, so an implementation that walks over the runs
  is correct as soon as it obeys them.
* `LineLayoutOf L cov g` — `g` keeps the offsets, and the lines apart and in their order;
  **`compress_le_of_layout`** — `compress` is the least such map, and leaves no line empty
  (`exists_of_lt_lineRank`).
* **`compress_again`** — the map does nothing to what it has already compressed.
* `linesBetween L cov a b` — the lines in use from the line of one address to that of the other;
  `natAbs_lineRank` — the distance of their ranks.
-/

namespace PerVERT

variable {L : ℕ} {cov : ℕ → Prop}

/-- Line `l` holds an address in use. -/
def LineTouched (L : ℕ) (cov : ℕ → Prop) (l : ℕ) : Prop :=
  ∃ x, cov x ∧ x / L = l

open Classical in
/-- The number of lines strictly below the line of `a` that hold an address in use. -/
noncomputable def lineRank (L : ℕ) (cov : ℕ → Prop) (a : ℕ) : ℕ :=
  Nat.count (LineTouched L cov) (a / L)

/-- The same offset on the renumbered line. -/
noncomputable def compress (L : ℕ) (cov : ℕ → Prop) (a : ℕ) : ℕ :=
  L * lineRank L cov a + a % L

lemma compress_mod (L : ℕ) (cov : ℕ → Prop) (a : ℕ) : compress L cov a % L = a % L := by
  rw [compress, Nat.mul_add_mod, Nat.mod_mod]

lemma compress_div (hL : 0 < L) (cov : ℕ → Prop) (a : ℕ) :
    compress L cov a / L = lineRank L cov a := by
  rw [compress, Nat.mul_add_div hL, Nat.div_eq_of_lt (Nat.mod_lt a hL), Nat.add_zero]

lemma compress_le (L : ℕ) (cov : ℕ → Prop) (a : ℕ) : compress L cov a ≤ a := by
  classical
  have hrank : lineRank L cov a ≤ a / L := Nat.count_le _
  calc compress L cov a ≤ L * (a / L) + a % L :=
        Nat.add_le_add_right (Nat.mul_le_mul_left L hrank) _
    _ = a := Nat.div_add_mod a L

lemma lineRank_eq_of_div_eq {a b : ℕ} (h : a / L = b / L) :
    lineRank L cov a = lineRank L cov b := by
  rw [lineRank, lineRank, h]

lemma lineRank_lt {a b : ℕ} (ha : cov a) (h : a / L < b / L) :
    lineRank L cov a < lineRank L cov b := by
  classical
  exact Nat.count_strict_mono ⟨a, ha, rfl⟩ h

/-- With nothing in use strictly between `a` and `b`, the line of `b` is the next one kept. -/
lemma lineRank_eq_succ {a b : ℕ} (ha : cov a) (h : a / L < b / L)
    (hgap : ∀ x, a < x → x < b → ¬ cov x) : lineRank L cov b = lineRank L cov a + 1 := by
  classical
  have hnone : ∀ m, a / L < m → m ≤ b / L →
      Nat.count (LineTouched L cov) m = Nat.count (LineTouched L cov) (a / L) + 1 := by
    intro m
    induction m with
    | zero => intro h0; exact absurd h0 (Nat.not_lt_zero _)
    | succ m ih =>
        intro hlt hle
        rw [Nat.count_succ]
        rcases Nat.lt_or_ge (a / L) m with hm | hm
        · have huntouched : ¬ LineTouched L cov m := by
            rintro ⟨x, hx, rfl⟩
            exact hgap x (Nat.lt_of_div_lt_div hm) (Nat.lt_of_div_lt_div hle) hx
          rw [if_neg huntouched, ih hm (by omega), Nat.add_zero]
        · obtain rfl : m = a / L := by omega
          rw [if_pos ⟨a, ha, rfl⟩]
  exact hnone (b / L) h (le_refl _)

/-! ## The map on the addresses in use -/

/-- **Strictly increasing.**  Only the lower address has to be in use. -/
theorem compress_strictMono (hL : 0 < L) {a b : ℕ} (ha : cov a) (h : a < b) :
    compress L cov a < compress L cov b := by
  rcases Nat.lt_or_ge (a / L) (b / L) with hline | hline
  · have hrank := lineRank_lt ha hline
    have hmod := Nat.mod_lt a hL
    have hmul : L * (lineRank L cov a + 1) ≤ L * lineRank L cov b :=
      Nat.mul_le_mul_left L hrank
    rw [Nat.mul_succ] at hmul
    rw [compress, compress]
    omega
  · have hdiv : a / L = b / L := le_antisymm (Nat.div_le_div_right (le_of_lt h)) hline
    have ha' := Nat.div_add_mod a L
    have hb' := Nat.div_add_mod b L
    rw [compress, compress, lineRank_eq_of_div_eq hdiv]
    rw [hdiv] at ha'
    omega

lemma compress_lt_iff (hL : 0 < L) {a b : ℕ} (ha : cov a) (hb : cov b) :
    compress L cov a < compress L cov b ↔ a < b := by
  refine ⟨fun h => ?_, compress_strictMono hL ha⟩
  by_contra hge
  rcases Nat.lt_or_eq_of_le (not_lt.mp hge) with hlt | rfl
  · exact lt_asymm h (compress_strictMono hL hb hlt)
  · exact lt_irrefl _ h

lemma compress_le_iff (hL : 0 < L) {a b : ℕ} (ha : cov a) (hb : cov b) :
    compress L cov a ≤ compress L cov b ↔ a ≤ b := by
  rw [← not_lt, ← not_lt, compress_lt_iff hL hb ha]

/-- **Lines are neither merged nor split.** -/
theorem compress_div_eq_iff (hL : 0 < L) {a b : ℕ} (ha : cov a) (hb : cov b) :
    compress L cov a / L = compress L cov b / L ↔ a / L = b / L := by
  rw [compress_div hL, compress_div hL]
  refine ⟨fun h => ?_, lineRank_eq_of_div_eq⟩
  by_contra hne
  rcases Nat.lt_or_gt_of_ne hne with hlt | hlt
  · exact absurd h (ne_of_lt (lineRank_lt ha hlt))
  · exact absurd h.symm (ne_of_lt (lineRank_lt hb hlt))

/-! ## How the map moves -/

/-- The distance `b` keeps from the last address in use `e`: the original one when both are on
one line, else the one that puts `b` at its own offset on the very next line. -/
def padding (L e b : ℕ) : ℕ :=
  if e % L ≤ b % L ∧ b - e < L then b - e else L + b % L - e % L

/-- The offset comparison and the distance test together decide whether `e` and `b` share a
line. -/
lemma same_line_iff (hL : 0 < L) {e b : ℕ} (h : e ≤ b) :
    (e % L ≤ b % L ∧ b - e < L) ↔ e / L = b / L := by
  have he := Nat.div_add_mod e L
  have hb := Nat.div_add_mod b L
  have hmod := Nat.mod_lt b hL
  have hle : e / L ≤ b / L := Nat.div_le_div_right h
  constructor
  · rintro ⟨hoff, hdist⟩
    by_contra hne
    have hlt : e / L + 1 ≤ b / L := by omega
    have hmul := Nat.mul_le_mul_left L hlt
    rw [Nat.mul_succ] at hmul
    omega
  · intro heq
    rw [heq] at he
    omega

/-- **Across a gap** the map moves by the padding. -/
theorem compress_gap (hL : 0 < L) {e b : ℕ} (he : cov e) (h : e ≤ b)
    (hgap : ∀ x, e < x → x < b → ¬ cov x) :
    compress L cov b = compress L cov e + padding L e b := by
  have he' := Nat.div_add_mod e L
  have hb' := Nat.div_add_mod b L
  rw [padding]
  by_cases hline : e / L = b / L
  · rw [if_pos ((same_line_iff hL h).mpr hline), compress, compress, lineRank_eq_of_div_eq hline]
    rw [hline] at he'
    omega
  · have hlt : e / L < b / L := lt_of_le_of_ne (Nat.div_le_div_right h) hline
    have hmod := Nat.mod_lt e hL
    rw [if_neg fun hc => hline ((same_line_iff hL h).mp hc), compress, compress,
      lineRank_eq_succ he hlt hgap, Nat.mul_succ]
    omega

/-- **Along a run of addresses in use** the map moves one for one. -/
theorem compress_add (hL : 0 < L) {b : ℕ} :
    ∀ k, (∀ x, b ≤ x → x ≤ b + k → cov x) → compress L cov (b + k) = compress L cov b + k
  | 0, _ => rfl
  | k + 1, hrun => by
      have ih := compress_add hL k fun x h1 h2 => hrun x h1 (by omega)
      have hstep := compress_gap hL (hrun (b + k) (by omega) (by omega)) (Nat.le_succ (b + k))
        fun x h1 h2 => by omega
      have hpad : padding L (b + k) (b + k + 1) = 1 := by
        rw [padding]
        by_cases hline : (b + k) / L = (b + k + 1) / L
        · rw [if_pos ((same_line_iff hL (Nat.le_succ _)).mpr hline)]; omega
        · rw [if_neg fun hc => hline ((same_line_iff hL (Nat.le_succ _)).mp hc)]
          -- the line changes between two neighbours: the last offset, then offset zero
          have hdvd : L ∣ b + k + 1 := by
            by_contra hnd
            exact hline (Nat.succ_div_of_not_dvd hnd).symm
          have hmod : (b + k) % L + 1 = L := by
            have h1 := Nat.div_add_mod (b + k) L
            have h2 := Nat.mod_lt (b + k) hL
            obtain ⟨q, hq⟩ := hdvd
            rcases Nat.lt_or_ge ((b + k) / L) q with hlt | hge
            · have := Nat.mul_le_mul_left L hlt
              rw [Nat.mul_succ] at this
              omega
            · have := Nat.mul_le_mul_left L hge
              omega
          have hzero : (b + k + 1) % L = 0 := Nat.mod_eq_zero_of_dvd hdvd
          omega
      rw [← Nat.add_assoc, hstep, ih, hpad, Nat.add_assoc]

/-- With nothing in use below `b`, the line of `b` becomes line `0`. -/
lemma compress_first {b : ℕ} (h : ∀ x, x < b → ¬ cov x) : compress L cov b = b % L := by
  classical
  have hzero : lineRank L cov b = 0 := by
    rw [lineRank, Nat.count_eq_card_filter_range, Finset.card_eq_zero, Finset.filter_eq_empty_iff]
    rintro l hl ⟨x, hx, rfl⟩
    exact h x (Nat.lt_of_div_lt_div (Finset.mem_range.mp hl)) hx
  rw [compress, hzero, Nat.mul_zero, Nat.zero_add]

/-! ## The most compact layout -/

/-- The map keeps every offset, and the lines apart and in their order. -/
structure LineLayoutOf (L : ℕ) (cov : ℕ → Prop) (g : ℕ → ℕ) : Prop where
  offset : ∀ a, cov a → g a % L = a % L
  line : ∀ a b, cov a → cov b → (g a / L < g b / L ↔ a / L < b / L)

lemma layout_compress (hL : 0 < L) : LineLayoutOf L cov (compress L cov) := by
  refine ⟨fun a _ => compress_mod L cov a, fun a b ha hb => ?_⟩
  rw [compress_div hL, compress_div hL]
  refine ⟨fun h => ?_, lineRank_lt ha⟩
  by_contra hge
  rcases Nat.lt_or_eq_of_le (not_lt.mp hge) with hlt | heq
  · exact lt_asymm h (lineRank_lt hb hlt)
  · exact absurd (lineRank_eq_of_div_eq heq.symm) (ne_of_lt h)

/-- **No line is left out** below one that is kept. -/
theorem exists_of_lt_lineRank {a k : ℕ} (h : k < lineRank L cov a) :
    ∃ b, cov b ∧ b / L < a / L ∧ lineRank L cov b = k := by
  classical
  have hcount : ∀ m, k < Nat.count (LineTouched L cov) m →
      ∃ l < m, LineTouched L cov l ∧ Nat.count (LineTouched L cov) l = k := by
    intro m
    induction m with
    | zero => simp
    | succ m ih =>
        intro hk
        rw [Nat.count_succ] at hk
        by_cases hlt : k < Nat.count (LineTouched L cov) m
        · obtain ⟨l, hl, hrest⟩ := ih hlt
          exact ⟨l, Nat.lt_succ_of_lt hl, hrest⟩
        · split_ifs at hk with htouched
          · exact ⟨m, Nat.lt_succ_self m, htouched, by omega⟩
          · exact absurd hk hlt
  obtain ⟨l, hl, ⟨b, hb, rfl⟩, hrank⟩ := hcount _ h
  exact ⟨b, hb, hl, hrank⟩

/-- A layout leaves room for the lines below. -/
lemma lineRank_le_of_layout {g : ℕ → ℕ} (hg : LineLayoutOf L cov g) :
    ∀ {k a : ℕ}, cov a → lineRank L cov a = k → k ≤ g a / L
  | 0, _, _, _ => Nat.zero_le _
  | k + 1, a, ha, hk => by
      obtain ⟨b, hb, hlt, hrank⟩ := exists_of_lt_lineRank (k.lt_succ_self.trans_eq hk.symm)
      have hbelow : k ≤ g b / L := lineRank_le_of_layout hg hb hrank
      have hline := (hg.line b a hb ha).mpr hlt
      omega

/-- **The least layout.** -/
theorem compress_le_of_layout {g : ℕ → ℕ} (hg : LineLayoutOf L cov g) {a : ℕ} (ha : cov a) :
    compress L cov a ≤ g a := by
  have hrank := lineRank_le_of_layout hg ha rfl
  calc compress L cov a ≤ L * (g a / L) + a % L :=
        Nat.add_le_add_right (Nat.mul_le_mul_left L hrank) _
    _ = g a := by rw [← hg.offset a ha, Nat.div_add_mod]

/-- **What has been compressed** stays where it is. -/
theorem compress_again (hL : 0 < L) (cov : ℕ → Prop) (a : ℕ) :
    compress L (fun x => ∃ b, cov b ∧ compress L cov b = x) (compress L cov a)
      = compress L cov a := by
  classical
  have hrank : lineRank L (fun x => ∃ b, cov b ∧ compress L cov b = x) (compress L cov a)
      = lineRank L cov a := by
    rw [lineRank, compress_div hL]
    refine Nat.count_of_forall fun l hl => ?_
    obtain ⟨b, hb, -, hbl⟩ := exists_of_lt_lineRank hl
    exact ⟨_, ⟨b, hb, rfl⟩, (compress_div hL cov b).trans hbl⟩
  rw [compress, hrank, compress_mod]
  rfl

/-! ## Distances -/

open Classical in
/-- The number of lines in use from the lower one of two lines on, up to the higher one. -/
noncomputable def linesBetween (L : ℕ) (cov : ℕ → Prop) (a b : ℕ) : ℕ :=
  ((Finset.Ico (min (a / L) (b / L)) (max (a / L) (b / L))).filter (LineTouched L cov)).card

lemma linesBetween_comm (L : ℕ) (cov : ℕ → Prop) (a b : ℕ) :
    linesBetween L cov a b = linesBetween L cov b a := by
  rw [linesBetween, linesBetween, min_comm, max_comm]

lemma lineRank_add_linesBetween {a b : ℕ} (h : a / L ≤ b / L) :
    lineRank L cov a + linesBetween L cov a b = lineRank L cov b := by
  classical
  have hsplit : Finset.range (b / L) = Finset.range (a / L) ∪ Finset.Ico (a / L) (b / L) := by
    rw [Finset.range_eq_Ico, Finset.range_eq_Ico,
      Finset.Ico_union_Ico_eq_Ico (Nat.zero_le _) h]
  have hdisjoint : Disjoint ((Finset.range (a / L)).filter (LineTouched L cov))
      ((Finset.Ico (a / L) (b / L)).filter (LineTouched L cov)) := by
    refine Finset.disjoint_filter_filter (Finset.disjoint_left.mpr fun l hl hl' => ?_)
    exact absurd (Finset.mem_range.mp hl) (Nat.not_lt.mpr (Finset.mem_Ico.mp hl').1)
  rw [lineRank, lineRank, linesBetween, min_eq_left h, max_eq_right h,
    Nat.count_eq_card_filter_range, Nat.count_eq_card_filter_range, hsplit, Finset.filter_union,
    Finset.card_union_of_disjoint hdisjoint]

/-- **The distance of two ranks.** -/
theorem natAbs_lineRank (L : ℕ) (cov : ℕ → Prop) (a b : ℕ) :
    ((lineRank L cov b : ℤ) - lineRank L cov a).natAbs = linesBetween L cov a b := by
  rcases Nat.le_total (a / L) (b / L) with h | h
  · have hsum := @lineRank_add_linesBetween L cov _ _ h
    omega
  · have hsum := @lineRank_add_linesBetween L cov _ _ h
    rw [linesBetween_comm]
    omega

end PerVERT
