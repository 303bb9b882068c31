import PerVERT.Backend.MemStatus

/-!
# The rows of the memory map

The page draws an access at a cell of a grid whose rows hold `bytes_in_line` bytes.  The server
computes the address it sends with the line size its trace was built with.

* `addr_gxgy` — the cell of an address, as the page computes it.
* `sentAddress` — what the server sends for an event; `addr_eq_sentAddress`.
* **`sentAddress_place`** — where that comes from: the offset of the raw address, on the line
  numbered by the lines in use below.
* `RowCondition` — **`rowIsLine_iff`**: this is when two accesses share a row just if their
  addresses share a line.
-/

namespace PerVERT

/-! ## The page -/

/-- A cell of the grid. -/
structure Cell where
  gx : ℤ
  gy : ℤ
  deriving DecidableEq, Repr

/-- `var bytes_in_line = 512`. -/
def bytes_in_line : ℤ := 512

/-- `addr_gxgy`, for the integers a response holds.  `Math.floor(a / b)` is the rounding of `/` on
`ℤ` here, while the `%` of the page takes its sign from the left. -/
def addr_gxgy (a : ℤ) : Cell where
  gx := (a / 4).tmod (bytes_in_line / 4)
  gy := a / 4 / (bytes_in_line / 4)

/-- What `f_mem_status` puts into `addr` for an event of its trace. -/
def sentAddress (e : Event) : ℤ := toInt e.arg1.toNat

/-- The list `addr` of a response. -/
lemma addr_eq_sentAddress {t : Trace} {f : ℕ} {snapshot : List ℕ} (hf : f < t.events.length)
    (hsnap : t.validRegions[f]? = some snapshot) (window : ℤ) :
    ∃ answer, f_mem_status t f window = .ok (some answer) ∧
      answer.addr = (shownAccesses t.events f (toUnsigned window)).map sentAddress :=
  ⟨_, f_mem_status_eq hf hsnap window, rfl⟩

/-- The conversion to `int` turns the row round after `2 ^ 23` rows. -/
lemma gy_toInt (n : ℕ) :
    (addr_gxgy (toInt n)).gy = ((n : ℤ) / 512 + 2 ^ 22) % 2 ^ 23 - 2 ^ 22 := by
  have hrow : (addr_gxgy (toInt n)).gy = toInt n / 512 := by
    simp only [addr_gxgy, bytes_in_line]
    omega
  rw [hrow, toInt]
  omega

lemma row_of_line {rank offset : ℕ} :
    ((1024 * rank + offset : ℕ) : ℤ) / 512 = 2 * rank + (offset / 512 : ℕ) := by
  omega

lemma two_rows_eq_iff {rank rank' half half' : ℕ} (h : half < 2) (h' : half' < 2) :
    (2 * (rank : ℤ) + half) % 2 ^ 23 = (2 * (rank' : ℤ) + half') % 2 ^ 23 ↔
      half = half' ∧ rank % 2 ^ 22 = rank' % 2 ^ 22 := by
  omega

/-- **The rows of two places**, given by the number of a line and the offset on it. -/
lemma gy_toInt_eq_iff {rank rank' offset offset' : ℕ} (h : offset < 1024) (h' : offset' < 1024) :
    (addr_gxgy (toInt (1024 * rank + offset : ℕ))).gy
        = (addr_gxgy (toInt (1024 * rank' + offset' : ℕ))).gy ↔
      offset / 512 = offset' / 512 ∧ rank % 2 ^ 22 = rank' % 2 ^ 22 := by
  have hturn : ∀ a b : ℤ, (a + 2 ^ 22) % 2 ^ 23 - 2 ^ 22 = (b + 2 ^ 22) % 2 ^ 23 - 2 ^ 22 ↔
      a % 2 ^ 23 = b % 2 ^ 23 := by
    intro a b
    omega
  rw [gy_toInt, gy_toInt, hturn, row_of_line, row_of_line,
    two_rows_eq_iff (by omega) (by omega)]

/-! ## The accesses of a trace -/

/-- The address is an endpoint of a MALLOC, or a MALLOC is open there. -/
def SpannedAddress (mallocs : List (UInt64 × UInt64)) (x : ℕ) : Prop :=
  ∃ a : UInt64, a.toNat = x ∧ Spanned mallocs a

/-- The number of lines below that of `a` that hold an address in use. -/
noncomputable def linesBelow (mallocs : List (UInt64 × UInt64)) (a : UInt64) : ℕ :=
  lineRank 1024 (SpannedAddress mallocs) a.toNat

/-- An access as it was recorded, and as the server holds it. -/
def Shown (p : Parsed) (t : Trace) (e s : Event) : Prop :=
  ∃ i : ℕ, p.events[i]? = some e ∧ t.events[i]? = some s ∧ e.isAccess = true

/-- On one line the addresses are in one half; on two lines, in different halves, or `2 ^ 22` lines
are not between them nor a multiple of that. -/
def RowCondition (mallocs : List (UInt64 × UInt64)) (a b : UInt64) : Prop :=
  (a / 1024 = b / 1024 → a.toNat % 1024 / 512 = b.toNat % 1024 / 512) ∧
    (a / 1024 ≠ b / 1024 → a.toNat % 1024 / 512 = b.toNat % 1024 / 512 →
      linesBelow mallocs a % 2 ^ 22 ≠ linesBelow mallocs b % 2 ^ 22)

section Rows

variable {p : Parsed} {t : Trace} {e e' s s' : Event}

lemma inUse_eq_spannedAddress {cacheLine : UInt64} {mallocs : List (UInt64 × UInt64)}
    {m : AddressMap} (hm : addressMap cacheLine mallocs = .ok m) :
    InUse m.regions.toList = SpannedAddress mallocs := by
  funext x
  apply propext
  constructor
  · intro h
    obtain ⟨r, -, -, hle⟩ := inUse_iff.mp h
    have hx : (UInt64.ofNat x).toNat = x :=
      UInt64.toNat_ofNat_of_lt' (lt_of_le_of_lt hle r.2.toNat_lt)
    rw [← hx, inUse_toNat] at h
    exact ⟨UInt64.ofNat x, hx, (addressMap_spanned hm _).mp h⟩
  · rintro ⟨a, rfl, ha⟩
    exact inUse_toNat.mpr ((addressMap_spanned hm a).mpr ha)

/-- **Where the server puts an access.** -/
theorem sentAddress_place (hload : Trace.load p 1024 = .ok t) (h : Shown p t e s) :
    SpannedAddress (mallocsOf p.events) e.arg1.toNat ∧
      s.arg1.toNat = 1024 * linesBelow (mallocsOf p.events) e.arg1 + e.arg1.toNat % 1024 := by
  obtain ⟨-, m, hm, mapped, hmapped, rfl⟩ := load_eq_ok.mp hload
  obtain ⟨i, he, hs, -⟩ := h
  have hrewritten : remapEvent m e = .ok s := by
    obtain ⟨hi, rfl⟩ := List.getElem?_eq_some_iff.mp he
    obtain ⟨hi', rfl⟩ := List.getElem?_eq_some_iff.mp hs
    exact (List.forall₂_iff_get.mp hmapped).2 i hi hi'
  have haddress := (remapEvent_fields hrewritten).2.2.2.1
  have hcovered := covered_of_remapAddress haddress
  obtain ⟨a', ha', hplace⟩ := addressMap_place (by decide) (by decide) hm hcovered
  rw [haddress] at ha'
  cases ha'
  rw [inUse_eq_spannedAddress hm] at hplace
  exact ⟨⟨e.arg1, rfl, (addressMap_spanned hm _).mp hcovered⟩, hplace⟩

/-- Addresses in use share a line just if as many lines are in use below. -/
lemma linesBelow_eq_iff {mallocs : List (UInt64 × UInt64)} {a b : UInt64}
    (ha : SpannedAddress mallocs a.toNat) (hb : SpannedAddress mallocs b.toNat) :
    linesBelow mallocs a = linesBelow mallocs b ↔ a / 1024 = b / 1024 := by
  have hdiv := compress_div_eq_iff (show 0 < 1024 by decide) ha hb
  rw [compress_div (by decide), compress_div (by decide)] at hdiv
  rw [linesBelow, linesBelow, hdiv, ← UInt64.toNat_inj, UInt64.toNat_div, UInt64.toNat_div]
  rfl

lemma sameRow_iff (hload : Trace.load p 1024 = .ok t) (h : Shown p t e s)
    (h' : Shown p t e' s') :
    (addr_gxgy (sentAddress s)).gy = (addr_gxgy (sentAddress s')).gy ↔
      e.arg1.toNat % 1024 / 512 = e'.arg1.toNat % 1024 / 512 ∧
        linesBelow (mallocsOf p.events) e.arg1 % 2 ^ 22
          = linesBelow (mallocsOf p.events) e'.arg1 % 2 ^ 22 := by
  rw [sentAddress, sentAddress, (sentAddress_place hload h).2, (sentAddress_place hload h').2]
  exact gy_toInt_eq_iff (Nat.mod_lt _ (by decide)) (Nat.mod_lt _ (by decide))

/-- **When rows are lines.**  Take two accesses of a loaded trace, at the addresses that the server
sends.  To share a row of the grid and to share a cache line of the traced program is one and the
same exactly under `RowCondition`: a row has half the bytes of a line, so two addresses on one line
have to be in the same half of it. -/
theorem rowIsLine_iff (hload : Trace.load p 1024 = .ok t) (h : Shown p t e s)
    (h' : Shown p t e' s') :
    ((addr_gxgy (sentAddress s)).gy = (addr_gxgy (sentAddress s')).gy ↔
      e.arg1 / 1024 = e'.arg1 / 1024) ↔ RowCondition (mallocsOf p.events) e.arg1 e'.arg1 := by
  have hlines := linesBelow_eq_iff (sentAddress_place hload h).1 (sentAddress_place hload h').1
  rw [sameRow_iff hload h h', RowCondition]
  by_cases hline : e.arg1 / 1024 = e'.arg1 / 1024
  · have hranks := hlines.mpr hline
    simp [hline, hranks]
  · simp [hline]

lemma exists_shown (hload : Trace.load p 1024 = .ok t) {i : ℕ} (he : p.events[i]? = some e)
    (haccess : e.isAccess = true) : ∃ s, Shown p t e s := by
  obtain ⟨-, m, -, mapped, hmapped, rfl⟩ := load_eq_ok.mp hload
  have hi : i < mapped.length := hmapped.length_eq ▸ lt_of_getElem? he
  exact ⟨mapped[i], i, he, List.getElem?_eq_getElem hi, haccess⟩

end Rows

/-- A block of one line, read at its begin, a little behind that, and in its second half. -/
def oneLine : Parsed where
  okay := true
  locations := []
  contexts := fun _ => some []
  events := [⟨0, .MALLOC, 0x1000, 0x1400, []⟩, ⟨1, .READ, 0x1000, 0, []⟩,
    ⟨2, .READ, 0x1010, 0, []⟩, ⟨3, .READ, 0x1300, 0, []⟩]

lemma oneLine_load : ∃ t, Trace.load oneLine 1024 = .ok t :=
  load_returns_iff.mpr
    ⟨by decide, by decide, by decide, countersFit_of_length (by decide), by decide⟩

/-- The first two reads are drawn on one row. -/
theorem nearReads_rowIsLine : ∃ t s s', Trace.load oneLine 1024 = .ok t ∧
    Shown oneLine t ⟨1, .READ, 0x1000, 0, []⟩ s ∧ Shown oneLine t ⟨2, .READ, 0x1010, 0, []⟩ s' ∧
    ((addr_gxgy (sentAddress s)).gy = (addr_gxgy (sentAddress s')).gy ↔
      (0x1000 : UInt64) / 1024 = 0x1010 / 1024) := by
  obtain ⟨t, ht⟩ := oneLine_load
  obtain ⟨s, hs⟩ := @exists_shown _ _ _ ht 1 rfl rfl
  obtain ⟨s', hs'⟩ := @exists_shown _ _ _ ht 2 rfl rfl
  exact ⟨t, s, s', ht, hs, hs', (rowIsLine_iff ht hs hs').mpr
    ⟨by decide, fun hne => absurd (by decide) hne⟩⟩

/-- The last one is not, on the same line. -/
theorem farReads_not_rowIsLine : ∃ t s s', Trace.load oneLine 1024 = .ok t ∧
    Shown oneLine t ⟨1, .READ, 0x1000, 0, []⟩ s ∧ Shown oneLine t ⟨3, .READ, 0x1300, 0, []⟩ s' ∧
    ¬ ((addr_gxgy (sentAddress s)).gy = (addr_gxgy (sentAddress s')).gy ↔
      (0x1000 : UInt64) / 1024 = 0x1300 / 1024) := by
  obtain ⟨t, ht⟩ := oneLine_load
  obtain ⟨s, hs⟩ := @exists_shown _ _ _ ht 1 rfl rfl
  obtain ⟨s', hs'⟩ := @exists_shown _ _ _ ht 3 rfl rfl
  refine ⟨t, s, s', ht, hs, hs', fun h => ?_⟩
  have hrows := (sameRow_iff ht hs hs').mp (h.mpr (by decide))
  exact absurd hrows.1 (by decide)

end PerVERT
