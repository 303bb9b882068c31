import PerVERT.Backend.ContextViews
import PerVERT.Frontend.MemMap
import Mathlib.Data.Rat.Floor
import Mathlib.Data.Set.Lattice
import Mathlib.Tactic.IntervalCases
import Mathlib.Tactic.Linarith
import Mathlib.Tactic.NormNum

/-!
# The picture of the memory map

`drawmockup` paints the blocks and the accesses of a frame, byte by byte of the image.  Accesses are
painted from the oldest to the newest, each as a square over what is there already; the squares of
the newest are larger, and have a dark dot in the middle.

* `ImageData`, `MemStatus.drawmockup` — the code.
* `foldl_collects` — what the steps of a loop add up to.
* `InkInv` — which pixels are dark: in no other way does a byte become `1`, and a `1` fades to `1`.
* **`drawmockup_ink_iff`** — the dots of the six newest accesses stay, and nothing else looks so.
* `dotOf`, `MemStatus.darkPixels` — the pixels of the canvas in a dot, and those that are dark.
* **`dots_meet_iff`** — two accesses share a dot just if the program accessed one word, on a row
  that the canvas has.
-/

namespace PerVERT

/-! ## The image -/

def data_x_offset : ℤ := 24
def data_y_offset : ℤ := 24
def boxside : ℤ := 2
def canvasWidth : ℤ := bytes_in_line + 2 * data_x_offset
def canvasHeight : ℤ := 690 + data_y_offset
def dataWidth : ℤ := canvasWidth - 2 * data_x_offset
def fixed_index_offset : ℤ := canvasWidth * data_y_offset + data_x_offset

/-- The bytes of the pixels, four of each. -/
abbrev ImageData := ℤ → ℕ

/-- `dt[i] = f(dt[i])`.  Behind the ends of the array nothing happens. -/
def ImageData.set (dt : ImageData) (i : ℤ) (f : ℕ → ℕ) : ImageData :=
  if 0 ≤ i ∧ i < 4 * (canvasWidth * canvasHeight) then Function.update dt i (f (dt i)) else dt

/-- The bytes of one pixel, each from what it was; the last one is made opaque. -/
def paint (dt : ImageData) (i : ℤ) (r g b : ℕ → ℕ) : ImageData :=
  (((dt.set i r).set (i + 1) g).set (i + 2) b).set (i + 3) fun _ => 255

/-- `v * decay` as a byte, where `decay` is `0.9`: rounded to the nearest, halves to even. -/
def decay (v : ℕ) : ℕ :=
  if 9 * v % 10 < 5 ∨ 9 * v % 10 = 5 ∧ 9 * v / 10 % 2 = 0 then 9 * v / 10 else 9 * v / 10 + 1

/-- The byte of the color of an access. -/
def flare (v : ℕ) : ℕ := if v = 0 then 255 else max (decay v) 0

/-! ## The page -/

/-- `make_quadratic_scale`. -/
def make_quadratic_scale (x m minclamp : ℚ) (val : ℚ) : ℤ :=
  let r := x + m * (val * val)
  ⌊if r < minclamp then minclamp else r⌋

def zoom_scalefnc (idx : ℕ) : ℤ := make_quadratic_scale 20 (-1 / 2) 1 idx

/-- `alloc_gxgy`; `Math.ceil(a / 4)` is `-(-a / 4)`. -/
def alloc_gxgy (a : ℤ) : Cell where
  gx := (-(-a / 4)).tmod (bytes_in_line / 4)
  gy := -(-a / 4) / (bytes_in_line / 4)

def gxgy_index_tl (p : Cell) : ℤ :=
  4 * (fixed_index_offset + (p.gx * 4 - boxside) +
    (p.gy * 4 - boxside) * (dataWidth + data_y_offset * 2))

def gxgy_index_center (p : Cell) : ℤ :=
  4 * (fixed_index_offset + p.gx * 4 + p.gy * 4 * (dataWidth + data_y_offset * 2))

def index_shift (i x y : ℤ) : ℤ := i + (x + y * canvasWidth) * 4

/-- The values of a loop from `lo` up to `hi`. -/
def fromTo (lo hi : ℤ) : List ℤ := (List.range (hi - lo + 1).toNat).map fun k : ℕ => lo + k

/-- `malloc_color`. -/
def paintGrey (dt : ImageData) (i : ℤ) : ImageData :=
  paint dt i (fun _ => 175) (fun _ => 175) fun _ => 175

def draw_vert (dt : ImageData) (x indx : ℤ) : ImageData :=
  (fromTo 0 4).foldl (fun dt y => paintGrey dt (index_shift indx x y)) dt

/-- One region. -/
def drawRegion (dt : ImageData) (r : ℤ × ℤ) : ImageData :=
  let dt := draw_vert dt 0 (gxgy_index_tl (addr_gxgy r.1))
  let dt := draw_vert dt 0 (gxgy_index_tl (alloc_gxgy r.2))
  (fromTo r.1 (r.2 - 1)).foldl (fun dt s =>
    (fromTo 0 1).foldl (fun dt row =>
      let index := gxgy_index_tl { addr_gxgy s with gy := (addr_gxgy s).gy + row }
      (fromTo 0 4).foldl (fun dt x => paintGrey dt (index_shift index x 0)) dt) dt) dt

/-- One pixel of the square around an access. -/
def paintAccess (dt : ImageData) (read : Bool) (hw index x y : ℤ) : ImageData :=
  let i := index_shift index x y
  if 2 < hw ∧ -2 < x ∧ x < 2 ∧ -2 < y ∧ y < 2 then
    paint dt i (fun _ => 1) (fun _ => 1) fun _ => 1
  else if read then paint dt i decay flare fun _ => 0
  else paint dt i flare decay fun _ => 0

/-- The square around an access. -/
def drawAccess (dt : ImageData) (read : Bool) (hw index : ℤ) : ImageData :=
  (fromTo (-hw) hw).foldl (fun dt x =>
    (fromTo (-hw) hw).foldl (fun dt y => paintAccess dt read hw index x y) dt) dt

/-- The loop over the accesses, from the last of the first `n` on. -/
def drawAccesses (data : MemStatus) : ℕ → ImageData → ImageData
  | 0, dt => dt
  | idx + 1, dt =>
      let ob := data.addr.getD idx 0
      drawAccesses data idx (drawAccess dt (data.events[idx]? = some ['r']) (zoom_scalefnc idx)
        (gxgy_index_center (addr_gxgy ob)))

/-- `drawmockup`, with `show_zoom`, which is never cleared. -/
def MemStatus.drawmockup (data : MemStatus) : ImageData :=
  drawAccesses data data.addr.length (data.regions.foldl drawRegion fun _ => 0)

/-! ## Loops -/

section Loops

variable {σ β κ : Type*} {I : Set κ → σ → Prop} {S : β → Set κ} {step : σ → β → σ}

/-- **What a loop adds**, when each step adds its own part. -/
lemma foldl_collects (h : ∀ D s b, I D s → I (D ∪ S b) (step s b)) :
    ∀ (l : List β) (D : Set κ) (s : σ), I D s → I (D ∪ ⋃ b ∈ l, S b) (l.foldl step s) := by
  intro l
  induction l with
  | nil => exact fun D s hs => by simpa using hs
  | cons b l ih =>
      intro D s hs
      have hrest := ih (D ∪ S b) (step s b) (h D s b hs)
      simpa [Set.union_assoc] using hrest

/-- A loop keeps what its steps keep. -/
lemma foldl_keeps {J : σ → Prop} (h : ∀ s b, J s → J (step s b)) (l : List β) {s : σ} (hs : J s) :
    J (l.foldl step s) :=
  List.foldlRecOn l step hs fun s hs b _ => h s b hs

end Loops

lemma mem_fromTo {lo hi x : ℤ} : x ∈ fromTo lo hi ↔ lo ≤ x ∧ x ≤ hi := by
  simp only [fromTo, List.mem_map, List.mem_range]
  constructor
  · rintro ⟨k, hk, rfl⟩
    omega
  · rintro ⟨hlo, hhi⟩
    exact ⟨(x - lo).toNat, by omega, by omega⟩

/-! ## Ink -/

/-- The first byte of a pixel. -/
def pixelIndex (col : Fin canvasWidth.toNat) (row : Fin canvasHeight.toNat) : ℤ :=
  4 * (row * canvasWidth + col)

/-- A byte that was painted and is no ink. -/
def Washed (v : ℕ) : Prop := v = 0 ∨ 4 ≤ v

lemma washed_grey : Washed 175 := Or.inr (by decide)

/-- The red and the green byte of the pixels: `1` just in the places of `D`. -/
def InkInv (D : Set ℤ) (dt : ImageData) : Prop :=
  ∀ col row c, c = 0 ∨ c = 1 →
    (pixelIndex col row ∈ D → dt (pixelIndex col row + c) = 1) ∧
      (pixelIndex col row ∉ D → Washed (dt (pixelIndex col row + c)))

/-- A change of a byte that makes no ink, and leaves it. -/
structure KeepsInk (f : ℕ → ℕ) : Prop where
  one : f 1 = 1
  washed : ∀ v, Washed v → Washed (f v)

lemma keepsInk_decay : KeepsInk decay := by
  constructor
  · rfl
  · intro v hv
    rw [Washed] at hv ⊢
    simp only [decay]
    split_ifs <;> omega

lemma keepsInk_flare : KeepsInk flare := by
  constructor
  · rfl
  · intro v hv
    have hdecay := keepsInk_decay.washed v hv
    rw [Washed] at hdecay ⊢
    simp only [flare]
    split_ifs <;> omega

section Paint

variable {dt : ImageData} {D : Set ℤ} {i q : ℤ} {r g b : ℕ → ℕ}

lemma set_apply {j : ℤ} (f : ℕ → ℕ) (h : 0 ≤ j ∧ j < 4 * (canvasWidth * canvasHeight)) :
    dt.set i f j = if j = i then f (dt j) else dt j := by
  rw [ImageData.set]
  by_cases hj : j = i
  · subst hj
    rw [if_pos h, if_pos rfl, Function.update_self]
  · rw [if_neg hj]
    split_ifs
    · rw [Function.update_of_ne hj]
    · rfl

lemma pixelIndex_bounds (col : Fin canvasWidth.toNat) (row : Fin canvasHeight.toNat) :
    0 ≤ pixelIndex col row ∧ pixelIndex col row + 4 ≤ 4 * (canvasWidth * canvasHeight) ∧
      pixelIndex col row % 4 = 0 := by
  have hcol : (col : ℕ) < 560 := col.isLt
  have hrow : (row : ℕ) < 714 := row.isLt
  rw [show pixelIndex col row = 4 * ((row : ℕ) * 560 + (col : ℕ)) from rfl,
    show canvasWidth * canvasHeight = 560 * 714 from rfl]
  omega

/-- The red and the green byte of a pixel, when some pixel is painted. -/
lemma paint_apply (hi : i % 4 = 0) (r g b : ℕ → ℕ) (col : Fin canvasWidth.toNat)
    (row : Fin canvasHeight.toNat) {c : ℤ} (hc : c = 0 ∨ c = 1) :
    paint dt i r g b (pixelIndex col row + c)
      = if pixelIndex col row = i then (if c = 0 then r else g) (dt (pixelIndex col row + c))
        else dt (pixelIndex col row + c) := by
  obtain ⟨h0, hlast, hmod⟩ := pixelIndex_bounds col row
  have hin : 0 ≤ pixelIndex col row + c ∧
      pixelIndex col row + c < 4 * (canvasWidth * canvasHeight) := by omega
  rw [paint, set_apply _ hin, set_apply _ hin, set_apply _ hin, set_apply _ hin,
    if_neg (by omega), if_neg (by omega)]
  rcases hc with rfl | rfl
  · rw [if_neg (by omega), add_zero, if_pos rfl]
  · by_cases hpixel : pixelIndex col row = i
    · rw [if_pos (by omega), if_neg (by omega), if_pos hpixel, if_neg one_ne_zero]
    · rw [if_neg (by omega), if_neg (by omega), if_neg hpixel]

lemma InkInv.paint (h : InkInv D dt) (hi : i % 4 = 0) (hr : KeepsInk r) (hg : KeepsInk g) :
    InkInv D (paint dt i r g b) := by
  intro col row c hc
  obtain ⟨hink, hwashed⟩ := h col row c hc
  rw [paint_apply hi r g b col row hc]
  split_ifs
  · exact ⟨fun hD => by rw [hink hD, hr.one], fun hD => hr.washed _ (hwashed hD)⟩
  · exact ⟨fun hD => by rw [hink hD, hg.one], fun hD => hg.washed _ (hwashed hD)⟩
  · exact ⟨hink, hwashed⟩

/-- The dark dot. -/
lemma InkInv.paintDot (h : InkInv D dt) (hi : i % 4 = 0) :
    InkInv (D ∪ {i}) (PerVERT.paint dt i (fun _ => 1) (fun _ => 1) fun _ => 1) := by
  intro col row c hc
  obtain ⟨hink, hwashed⟩ := h col row c hc
  rw [paint_apply hi _ _ _ col row hc]
  split_ifs with hpixel
  · exact ⟨fun _ => rfl, fun hD => absurd (Or.inr hpixel) hD⟩
  · exact ⟨fun _ => rfl, fun hD => absurd (Or.inr hpixel) hD⟩
  · exact ⟨fun hD => hink (hD.resolve_right hpixel), fun hD => hwashed fun hin => hD (Or.inl hin)⟩

/-- Blocks are painted where there is no ink yet. -/
lemma InkInv.paintGrey (h : InkInv ∅ dt) (hi : i % 4 = 0) : InkInv ∅ (paintGrey dt i) := by
  intro col row c hc
  refine ⟨fun hD => absurd hD (Set.notMem_empty _), fun _ => ?_⟩
  rw [PerVERT.paintGrey, paint_apply hi _ _ _ col row hc]
  split_ifs
  · exact washed_grey
  · exact washed_grey
  · exact (h col row c hc).2 (Set.notMem_empty _)

lemma index_shift_mod (hi : i % 4 = 0) (x y : ℤ) : index_shift i x y % 4 = 0 := by
  rw [index_shift]
  omega

/-- **A region** leaves no ink. -/
lemma InkInv.drawRegion (h : InkInv ∅ dt) (r : ℤ × ℤ) : InkInv ∅ (drawRegion dt r) := by
  have hmod : ∀ p, gxgy_index_tl p % 4 = 0 := fun p => Int.mul_emod_right 4 _
  have hvert : ∀ dt p, InkInv ∅ dt → InkInv ∅ (draw_vert dt 0 (gxgy_index_tl p)) :=
    fun dt p h => foldl_keeps (fun _ y h => h.paintGrey (index_shift_mod (hmod p) 0 y)) _ h
  refine foldl_keeps (fun dt s h => ?_) _ (hvert _ _ (hvert _ _ h))
  exact foldl_keeps (fun dt row h =>
    foldl_keeps (fun dt x h => h.paintGrey (index_shift_mod (hmod _) x 0)) _ h) _ h

/-! ## The dots -/

/-- The dot in the middle of a square. -/
def dotAt (index : ℤ) : Set ℤ :=
  { i | ∃ x y, (-2 < x ∧ x < 2) ∧ (-2 < y ∧ y < 2) ∧ i = index_shift index x y }

/-- The part of a pixel of the square in the dot. -/
def dotPixel (hw index x y : ℤ) : Set ℤ :=
  if 2 < hw ∧ -2 < x ∧ x < 2 ∧ -2 < y ∧ y < 2 then {index_shift index x y} else ∅

/-- **One pixel** of a square. -/
lemma InkInv.paintAccess (h : InkInv D dt) (hi : i % 4 = 0) (read : Bool) (hw x y : ℤ) :
    InkInv (D ∪ dotPixel hw i x y) (paintAccess dt read hw i x y) := by
  have hmod := index_shift_mod hi x y
  rw [PerVERT.paintAccess, dotPixel]
  split_ifs
  · exact h.paintDot hmod
  · rw [Set.union_empty]
    exact h.paint hmod keepsInk_decay keepsInk_flare
  · rw [Set.union_empty]
    exact h.paint hmod keepsInk_flare keepsInk_decay

/-- The pixels of a square that are in the dot: all of the dot, or none of it. -/
lemma dotPixels (hw index : ℤ) :
    (⋃ x ∈ fromTo (-hw) hw, ⋃ y ∈ fromTo (-hw) hw, dotPixel hw index x y)
      = if 2 < hw then dotAt index else ∅ := by
  ext i
  simp only [Set.mem_iUnion, mem_fromTo, dotPixel, exists_prop]
  constructor
  · rintro ⟨x, hx, y, hy, h⟩
    split_ifs at h with hdot
    · rw [if_pos hdot.1]
      exact ⟨x, y, ⟨hdot.2.1, hdot.2.2.1⟩, hdot.2.2.2, h⟩
    · exact absurd h (Set.notMem_empty _)
  · intro h
    split_ifs at h with hlarge
    · obtain ⟨x, y, hx, hy, rfl⟩ := h
      refine ⟨x, by omega, y, by omega, ?_⟩
      rw [if_pos ⟨hlarge, hx.1, hx.2, hy⟩]
      rfl
    · exact absurd h (Set.notMem_empty _)

/-- **A square** leaves the ink of its dot. -/
lemma InkInv.drawAccess (h : InkInv D dt) (hi : i % 4 = 0) (read : Bool) (hw : ℤ) :
    InkInv (D ∪ if 2 < hw then dotAt i else ∅) (drawAccess dt read hw i) := by
  rw [← dotPixels]
  exact foldl_collects (fun D dt x h =>
    foldl_collects (fun D dt y h => h.paintAccess hi read hw x y) _ D dt h) _ D dt h

end Paint

/-- Which squares have a dot. -/
lemma zoom_scalefnc_iff (idx : ℕ) : 2 < zoom_scalefnc idx ↔ idx < 6 := by
  have hsquare : (3 : ℚ) ≤ 20 + -1 / 2 * ((idx : ℚ) * idx) ↔ idx < 6 := by
    constructor
    · intro h
      have hle : ((idx * idx : ℕ) : ℚ) ≤ (34 : ℕ) := by
        push_cast
        linarith
      have hle := Nat.cast_le.mp hle
      nlinarith
    · intro h
      have hle : idx * idx ≤ 5 * 5 := Nat.mul_le_mul (by omega) (by omega)
      have hcast : ((idx * idx : ℕ) : ℚ) ≤ (5 * 5 : ℕ) := Nat.cast_le.mpr hle
      push_cast at hcast
      linarith
  rw [zoom_scalefnc, make_quadratic_scale, ← hsquare, ← Int.add_one_le_iff, Int.le_floor]
  push_cast
  split_ifs
  · constructor <;> intro h <;> linarith
  · norm_num

/-! ## The picture -/

/-- The dots of the first `n` accesses. -/
def dots (data : MemStatus) (n : ℕ) : Set ℤ :=
  { i | ∃ k < 6, k < n ∧ i ∈ dotAt (gxgy_index_center (addr_gxgy (data.addr.getD k 0))) }

lemma center_mod (p : Cell) : gxgy_index_center p % 4 = 0 := Int.mul_emod_right 4 _

/-- **The accesses**, from the oldest on. -/
lemma InkInv.drawAccesses {data : MemStatus} : ∀ {n : ℕ} {D : Set ℤ} {dt : ImageData},
    InkInv D dt → InkInv (D ∪ dots data n) (drawAccesses data n dt) := by
  intro n
  induction n with
  | zero =>
      intro D dt h
      have hnone : dots data 0 = ∅ := by
        ext i
        simp [dots]
      rwa [hnone, Set.union_empty]
  | succ n ih =>
      intro D dt h
      have hlast : dots data (n + 1)
          = (if 2 < zoom_scalefnc n then dotAt (gxgy_index_center (addr_gxgy (data.addr.getD n 0)))
            else ∅) ∪ dots data n := by
        ext i
        simp only [dots, Set.mem_union, Set.mem_ofPred_eq, zoom_scalefnc_iff]
        constructor
        · rintro ⟨k, hk, hlt, hi⟩
          rcases Nat.lt_succ_iff_lt_or_eq.mp hlt with hlt | rfl
          · exact Or.inr ⟨k, hk, hlt, hi⟩
          · exact Or.inl (by rwa [if_pos hk])
        · rintro (hi | ⟨k, hk, hlt, hi⟩)
          · split_ifs at hi with hn
            · exact ⟨n, hn, Nat.lt_succ_self n, hi⟩
            · exact absurd hi (Set.notMem_empty _)
          · exact ⟨k, hk, Nat.lt_succ_of_lt hlt, hi⟩
      rw [hlast, ← Set.union_assoc]
      exact ih (h.drawAccess (center_mod _) _ _)

/-- The ink of the whole picture: the regions leave none, and the accesses that of their dots. -/
lemma inkInv_drawmockup (data : MemStatus) :
    InkInv (dots data data.addr.length) data.drawmockup := by
  have hclear : InkInv ∅ fun _ => 0 :=
    fun _ _ _ _ => ⟨fun hD => absurd hD (Set.notMem_empty _), fun _ => Or.inl rfl⟩
  have hregions : InkInv ∅ (data.regions.foldl drawRegion fun _ => 0) :=
    foldl_keeps (fun _ r h => h.drawRegion r) _ hclear
  have h : InkInv (∅ ∪ dots data data.addr.length) data.drawmockup := hregions.drawAccesses
  rwa [Set.empty_union] at h

/-- **The dark dots.**  Whatever regions and accesses the server sends: a pixel of the picture is
dark, in its red and in its green byte, just if it lies in the dot of one of the first six
accesses.  No square that is painted later covers a dot, and no color fades to look like one. -/
theorem drawmockup_ink_iff (data : MemStatus) (col : Fin canvasWidth.toNat)
    (row : Fin canvasHeight.toNat) :
    (data.drawmockup (pixelIndex col row) = 1 ↔
        pixelIndex col row ∈ dots data data.addr.length) ∧
      (data.drawmockup (pixelIndex col row + 1) = 1 ↔
        pixelIndex col row ∈ dots data data.addr.length) := by
  have hbyte : ∀ c, c = 0 ∨ c = 1 → (data.drawmockup (pixelIndex col row + c) = 1 ↔
      pixelIndex col row ∈ dots data data.addr.length) := by
    intro c hc
    obtain ⟨hink, hwashed⟩ := inkInv_drawmockup data col row c hc
    refine ⟨fun hone => ?_, hink⟩
    by_contra hnot
    have hw := hwashed hnot
    rw [hone, Washed] at hw
    omega
  exact ⟨by simpa using hbyte 0 (Or.inl rfl), hbyte 1 (Or.inr rfl)⟩

/-! ## The dots of a trace -/

/-- A pixel of the canvas. -/
abbrev Pixel := Fin canvasWidth.toNat × Fin canvasHeight.toNat

/-- The pixels of the canvas that are dark, in red and in green, once the page has drawn. -/
def MemStatus.darkPixels (data : MemStatus) : Set Pixel :=
  { q | data.drawmockup (pixelIndex q.1 q.2) = 1 ∧ data.drawmockup (pixelIndex q.1 q.2 + 1) = 1 }

/-- The dot of an address that the server sends, as far as it lies on the canvas. -/
def dotOf (a : ℤ) : Set Pixel :=
  { q | pixelIndex q.1 q.2 ∈ dotAt (gxgy_index_center (addr_gxgy a)) }

section Words

variable {p : Parsed} {t : Trace} {e e' s s' : Event} {data : MemStatus} {k k' : ℕ}

lemma addr_gxgy_gx {a : ℤ} (h : 0 ≤ a) : 0 ≤ (addr_gxgy a).gx ∧ (addr_gxgy a).gx < 128 := by
  rw [addr_gxgy, Int.tmod_eq_emod_of_nonneg (by omega), show bytes_in_line / 4 = 128 from rfl]
  exact ⟨Int.emod_nonneg _ (by decide), Int.emod_lt_of_pos _ (by decide)⟩

lemma addr_gxgy_eq_iff {a a' : ℤ} (h : 0 ≤ a) (h' : 0 ≤ a') :
    addr_gxgy a = addr_gxgy a' ↔ a / 4 = a' / 4 := by
  rw [addr_gxgy, addr_gxgy, Cell.mk.injEq, Int.tmod_eq_emod_of_nonneg (by omega),
    Int.tmod_eq_emod_of_nonneg (by omega), show bytes_in_line / 4 = 128 from rfl]
  omega

/-- A dot has no more than three pixels in a row and in a column.  It does not run over the margins
of the picture, so the rows are those of the pixels. -/
lemma mem_dotOf_iff {a : ℤ} (h : 0 ≤ a) {q : Pixel} :
    q ∈ dotOf a ↔ ((q.1 : ℤ) - (24 + 4 * (addr_gxgy a).gx)).natAbs ≤ 1 ∧
      ((q.2 : ℤ) - (24 + 4 * (addr_gxgy a).gy)).natAbs ≤ 1 := by
  obtain ⟨hleft, hright⟩ := addr_gxgy_gx h
  obtain ⟨col, row⟩ := q
  have hcol : (col : ℕ) < 560 := col.isLt
  simp only [dotOf, dotAt, Set.mem_ofPred_eq]
  rw [show pixelIndex col row = 4 * ((row : ℕ) * 560 + (col : ℕ)) from rfl]
  generalize addr_gxgy a = c at hleft hright ⊢
  have hplace : ∀ x y, index_shift (gxgy_index_center c) x y
      = 4 * ((24 + 4 * c.gy + y) * 560 + (24 + 4 * c.gx + x)) := by
    intro x y
    rw [index_shift, gxgy_index_center, show fixed_index_offset = 560 * 24 + 24 from rfl,
      show canvasWidth = 560 from rfl, show dataWidth + data_y_offset * 2 = 560 from rfl]
    ring
  constructor
  · rintro ⟨x, y, hx, hy, hi⟩
    rw [hplace] at hi
    omega
  · rintro ⟨hx, hy⟩
    refine ⟨col - (24 + 4 * c.gx), row - (24 + 4 * c.gy), by omega, by omega, ?_⟩
    rw [hplace]
    ring

/-- Cells are four pixels apart, and dots are smaller.  The canvas is high enough for the dots of
173 rows of cells. -/
lemma dotOf_meet_iff {a a' : ℤ} (h : 0 ≤ a) (h' : 0 ≤ a') :
    (dotOf a ∩ dotOf a').Nonempty ↔ a / 4 = a' / 4 ∧ a < 173 * 512 := by
  rw [← addr_gxgy_eq_iff h h']
  have hgy : (addr_gxgy a).gy = a / 512 := by
    simp only [addr_gxgy, bytes_in_line]
    omega
  obtain ⟨hleft, hright⟩ := addr_gxgy_gx h
  constructor
  · rintro ⟨q, hq, hq'⟩
    obtain ⟨hx, hy⟩ := (mem_dotOf_iff h).mp hq
    obtain ⟨hx', hy'⟩ := (mem_dotOf_iff h').mp hq'
    have hrow : (q.2 : ℕ) < 714 := q.2.isLt
    refine ⟨?_, by omega⟩
    generalize addr_gxgy a = c at hx hy
    generalize addr_gxgy a' = c' at hx' hy'
    cases c
    cases c'
    simp only at hx hy hx' hy'
    rw [Cell.mk.injEq]
    omega
  · rintro ⟨heq, hrow⟩
    -- the pixel in the middle
    let q : Pixel := (⟨(24 + 4 * (addr_gxgy a).gx).toNat, show _ < 560 by omega⟩,
      ⟨(24 + 4 * (addr_gxgy a).gy).toNat, show _ < 714 by omega⟩)
    refine ⟨q, (mem_dotOf_iff h).mpr ?_, (mem_dotOf_iff h').mpr ?_⟩
    · simp only [q]
      omega
    · rw [← heq]
      simp only [q]
      omega

/-- The dots of the six newest accesses are in the picture. -/
lemma dotOf_subset_darkPixels {a : ℤ} (hk : k < 6) (hat : data.addr[k]? = some a) :
    dotOf a ⊆ data.darkPixels := by
  intro q hq
  have hin : pixelIndex q.1 q.2 ∈ dots data data.addr.length :=
    ⟨k, hk, lt_of_getElem? hat, by rwa [List.getD_eq_getElem?_getD, hat]⟩
  have hbyte : ∀ c, c = 0 ∨ c = 1 → data.drawmockup (pixelIndex q.1 q.2 + c) = 1 :=
    fun c hc => (inkInv_drawmockup data q.1 q.2 c hc).1 hin
  exact ⟨by simpa using hbyte 0 (Or.inl rfl), hbyte 1 (Or.inr rfl)⟩

/-- **When dots meet.**  Take two accesses of a loaded trace that are among the six newest of a
response.  Wherever the canvas has a pixel of their dots, the page draws it dark.  The two dots have
a pixel of the canvas in common just if the program accessed the same four bytes and the canvas is
high enough to show them; from the address `173 * 512` of the view on, there is nothing to see. -/
theorem dots_meet_iff (hload : Trace.load p 1024 = .ok t) (hfits : Fits t) (h : Shown p t e s)
    (h' : Shown p t e' s') (hk : k < 6) (hk' : k' < 6)
    (hat : data.addr[k]? = some (sentAddress s)) (hat' : data.addr[k']? = some (sentAddress s')) :
    dotOf (sentAddress s) ∪ dotOf (sentAddress s') ⊆ data.darkPixels ∧
      ((dotOf (sentAddress s) ∩ dotOf (sentAddress s')).Nonempty ↔
        e.arg1 / 4 = e'.arg1 / 4 ∧ s.arg1 < 173 * 512) := by
  refine ⟨Set.union_subset (dotOf_subset_darkPixels hk hat) (dotOf_subset_darkPixels hk' hat'), ?_⟩
  obtain ⟨hspanned, hplace⟩ := sentAddress_place hload h
  obtain ⟨hspanned', hplace'⟩ := sentAddress_place hload h'
  have hlines := linesBelow_eq_iff hspanned hspanned'
  have hsent : ∀ {e s : Event}, Shown p t e s → sentAddress s = s.arg1.toNat := by
    rintro e s ⟨i, -, hs, -⟩
    have hlt := hfits.address s (List.mem_of_getElem? hs)
    exact toInt_of_inInt (by rw [InInt]; omega)
  have hlow : s.arg1 < 173 * 512 ↔ (s.arg1.toNat : ℤ) < 173 * 512 := by
    rw [UInt64.lt_iff_toNat_lt, show (173 * 512 : UInt64).toNat = 173 * 512 from rfl]
    omega
  rw [hsent h, hsent h', dotOf_meet_iff (Int.natCast_nonneg _) (Int.natCast_nonneg _), hlow,
    and_congr_left_iff]
  intro _
  rw [hplace, hplace', ← UInt64.toNat_inj, UInt64.toNat_div, UInt64.toNat_div,
    show (4 : UInt64).toNat = 4 from rfl]
  rw [← UInt64.toNat_inj, UInt64.toNat_div, UInt64.toNat_div,
    show (1024 : UInt64).toNat = 1024 from rfl] at hlines
  omega

/-- Two reads of one line, four words apart, in the answer of the server to the frame of the second
one. -/
theorem nearReads_apart : ∃ t s s' data, Trace.load oneLine 1024 = .ok t ∧
    Shown oneLine t ⟨1, .READ, 0x1000, 0, []⟩ s ∧ Shown oneLine t ⟨2, .READ, 0x1010, 0, []⟩ s' ∧
    f_mem_status t 2 250 = .ok (some data) ∧
    dotOf (sentAddress s) ∪ dotOf (sentAddress s') ⊆ data.darkPixels ∧
    ((dotOf (sentAddress s) ∩ dotOf (sentAddress s')).Nonempty ↔
      (0x1000 : UInt64) / 4 = 0x1010 / 4 ∧ s.arg1 < 173 * 512) := by
  obtain ⟨t, ht, hall⟩ := @exists_of_any _ (Trace.load oneLine 1024)
    (fun t => Fits t ∧ t.validRegions[2]?.isSome = true ∧ t.events.length = 4 ∧
      shownAccesses t.events 2 250 = [t.events[2]?, t.events[1]?].reduceOption) (by decide +kernel)
  obtain ⟨hfits, hsnap, hlength, haccesses⟩ := of_decide_eq_true hall
  obtain ⟨snapshot, hsnap⟩ := Option.isSome_iff_exists.mp hsnap
  obtain ⟨data, hdata, haddr⟩ := addr_eq_sentAddress (hlength ▸ by decide) hsnap 250
  have hs : t.events[1]? = some t.events[1] := List.getElem?_eq_getElem _
  have hs' : t.events[2]? = some t.events[2] := List.getElem?_eq_getElem _
  have haddr : data.addr = [sentAddress t.events[2], sentAddress t.events[1]] := by
    rw [haddr, show toUnsigned 250 = 250 from rfl, haccesses, hs, hs']
    rfl
  have h : Shown oneLine t ⟨1, .READ, 0x1000, 0, []⟩ t.events[1] := ⟨1, rfl, hs, rfl⟩
  have h' : Shown oneLine t ⟨2, .READ, 0x1010, 0, []⟩ t.events[2] := ⟨2, rfl, hs', rfl⟩
  exact ⟨t, t.events[1], t.events[2], data, ht, h, h', hdata,
    dots_meet_iff ht hfits h h' (show 1 < 6 by decide) (show 0 < 6 by decide)
      (by rw [haddr]; rfl) (by rw [haddr]; rfl)⟩

end Words

end PerVERT
