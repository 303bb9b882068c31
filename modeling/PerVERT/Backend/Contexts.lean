import PerVERT.Backend.ParseTrace
import PerVERT.Backend.ParseLine
import PerVERT.Core.Scan
import Mathlib.Data.List.DropRight

/-!
# What `Trace::parseContext` makes of a stack text

The rules about the two loops and the search, for every text and every line table.

* `Brackets`, **`resolveAddress_eq_ok`** — the frame of an address: the first pair of consecutive
  rows around it.
* **`contextLoop_ends_iff`** — the extraction loop ends just if the text is read to its end
  (`ReadsAddresses`); then the frames are those of the addresses that were extracted.
* **`resolveAddress_closest_iff`** — when the frame shown is the closest row before the address.
* **`parseContext_trims_iff`** — when the trimming loop stays inside the context.
* **`resolveContext_returns_iff`** — `Resolvable`: both loops return.

A line table is what `parseLineFile` leaves: the unknown location, and then rows in any order.
-/

namespace PerVERT

/-- The locations of a line file with these rows. -/
def lineTable (rows : List Location) : List Location := unknownLocation :: rows

/-! ## The search for a row -/

/-- The rows at `i` and behind it are around the address. -/
def Holds (locations : List Location) (address : UInt64) (i : ℕ) : Prop :=
  ∃ row next, locations[i]? = some row ∧ locations[i + 1]? = some next ∧
    row.address ≤ address ∧ address < next.address

/-- `locations_.size() - 1`, as the `unsigned int` up to which the search runs. -/
def searchEnd (locations : List Location) : ℕ := toUnsigned (locations.length - 1)

/-- A pair of consecutive rows that the search compares with the address, and that is around it. -/
def Brackets (locations : List Location) (address : UInt64) (i : ℕ) : Prop :=
  1 ≤ i ∧ i < searchEnd locations ∧ Holds locations address i

/-- The pair the search stops at. -/
def FirstBracket (locations : List Location) (address : UInt64) (i : ℕ) : Prop :=
  Brackets locations address i ∧ ∀ k, k < i → ¬ Brackets locations address k

section Search

variable {locations : List Location} {address : UInt64}

lemma FirstBracket.unique {i j : ℕ} (hi : FirstBracket locations address i)
    (hj : FirstBracket locations address j) : i = j := by
  rcases Nat.lt_trichotomy i j with h | h | h
  · exact absurd hi.1 (hj.2 i h)
  · exact h
  · exact absurd hj.1 (hi.2 j h)

/-- **The search** over rows inside the table: it stops at the first pair around the address, or
behind the last one it compares. -/
lemma findRow_spec : ∀ {n i : ℕ}, (n ≠ 0 → i + n < locations.length) → ∃ j found,
    findRow locations address n i = .ok (j, found) ∧ i ≤ j ∧ j ≤ i + n ∧
      (∀ k, i ≤ k → k < j → ¬ Holds locations address k) ∧
      (found = true → j < i + n ∧ Holds locations address j) ∧ (found = false → j = i + n)
  | 0, i, _ => ⟨i, false, rfl, le_refl _, le_refl _, by omega, by simp, by simp⟩
  | n + 1, i, h => by
      have h := h (Nat.succ_ne_zero n)
      have hi : locations[i]? = some locations[i] := List.getElem?_eq_getElem (by omega)
      have hi' : locations[i + 1]? = some locations[i + 1] := List.getElem?_eq_getElem (by omega)
      rw [findRow, vectorAt_of_getElem? hi]
      have hnext : vectorAt locations ((i : ℤ) + 1) = .ok locations[i + 1] :=
        vectorAt_of_getElem? hi'
      rw [hnext]
      show ∃ j found, (if locations[i].address ≤ address ∧ address < locations[i + 1].address
        then pure (i, true) else findRow locations address n (i + 1)) = .ok (j, found) ∧ _
      by_cases hhold : locations[i].address ≤ address ∧ address < locations[i + 1].address
      · refine ⟨i, true, if_pos hhold, le_refl _, by omega, by omega, fun _ => ⟨by omega, ?_⟩,
          by simp⟩
        exact ⟨_, _, hi, hi', hhold.1, hhold.2⟩
      · have hnot : ¬ Holds locations address i := by
          rintro ⟨row, next, hrow, hnext, h1, h2⟩
          rw [hi] at hrow
          rw [hi'] at hnext
          cases hrow
          cases hnext
          exact hhold ⟨h1, h2⟩
        obtain ⟨j, found, heq, hle, hle', hbefore, hfound, hnone⟩ :=
          @findRow_spec n (i + 1) fun _ => by omega
        refine ⟨j, found, by rw [if_neg hhold]; exact heq, by omega, by omega, ?_, ?_, ?_⟩
        · intro k hk hkj
          rcases Nat.lt_or_eq_of_le hk with hk | rfl
          · exact hbefore k hk hkj
          · exact hnot
        · exact fun hf => ⟨by have := (hfound hf).1; omega, (hfound hf).2⟩
        · exact fun hf => by rw [hnone hf]; omega

/-- The frames of an address: the first pair around it; the unknown location when the search has
seen the whole table; nothing at all otherwise. -/
inductive FramesOf (locations : List Location) (address : UInt64) : List ℕ → Prop
  | row {i : ℕ} (h : FirstBracket locations address i) : FramesOf locations address [i]
  | unknown (h : ∀ i, ¬ Brackets locations address i)
      (hend : max 1 (searchEnd locations) = locations.length - 1) : FramesOf locations address [0]
  | none (h : ∀ i, ¬ Brackets locations address i)
      (hend : max 1 (searchEnd locations) ≠ locations.length - 1) : FramesOf locations address []

lemma searchEnd_le (hne : locations ≠ []) : searchEnd locations ≤ locations.length - 1 := by
  have hpos := List.length_pos_iff.mpr hne
  have hcast : ((locations.length : ℤ) - 1) = ((locations.length - 1 : ℕ) : ℤ) := by omega
  rw [searchEnd, toUnsigned, hcast]
  omega

/-- **The frames an address adds.** -/
theorem resolveAddress_spec (hne : locations ≠ []) :
    ∃ frames, resolveAddress locations address = .ok frames ∧
      FramesOf locations address frames := by
  have hend := searchEnd_le hne
  obtain ⟨j, found, heq, hle, hle', hbefore, hfound, hnone⟩ :=
    @findRow_spec locations address (searchEnd locations - 1) 1 fun _ => by omega
  have hbracket : ∀ k, Brackets locations address k ↔
      1 ≤ k ∧ k < 1 + (searchEnd locations - 1) ∧ Holds locations address k := by
    intro k
    rw [Brackets]
    exact ⟨fun h => ⟨h.1, by omega, h.2.2⟩, fun h => ⟨h.1, by omega, h.2.2⟩⟩
  have hres : resolveAddress locations address
      = if found then .ok [j] else if j = locations.length - 1 then .ok [0] else .ok [] := by
    rw [searchEnd] at heq
    rw [resolveAddress, heq]
    rfl
  cases found with
  | true =>
      obtain ⟨hlt, hhold⟩ := hfound rfl
      refine ⟨[j], hres, .row ⟨(hbracket j).mpr ⟨hle, hlt, hhold⟩, fun k hk hb => ?_⟩⟩
      exact hbefore k hb.1 hk hb.2.2
  | false =>
      have hj := hnone rfl
      have hno : ∀ k, ¬ Brackets locations address k := by
        intro k hb
        obtain ⟨h1, h2, h3⟩ := (hbracket k).mp hb
        exact hbefore k h1 (by omega) h3
      by_cases hall : j = locations.length - 1
      · exact ⟨[0], hres.trans (if_pos hall), .unknown hno (by omega)⟩
      · exact ⟨[], hres.trans (if_neg hall), .none hno (by omega)⟩

lemma FramesOf.unique {frames frames' : List ℕ} (h : FramesOf locations address frames)
    (h' : FramesOf locations address frames') : frames = frames' := by
  cases h with
  | row h =>
      cases h' with
      | row h' => rw [h.unique h']
      | unknown h' _ => exact absurd h.1 (h' _)
      | none h' _ => exact absurd h.1 (h' _)
  | unknown h hend =>
      cases h' with
      | row h' => exact absurd h'.1 (h _)
      | unknown _ _ => rfl
      | none _ hend' => exact absurd hend hend'
  | none h hend =>
      cases h' with
      | row h' => exact absurd h'.1 (h _)
      | unknown _ hend' => exact absurd hend' hend
      | none _ _ => rfl

theorem resolveAddress_eq_ok (hne : locations ≠ []) {frames : List ℕ} :
    resolveAddress locations address = .ok frames ↔ FramesOf locations address frames := by
  obtain ⟨frames', heq, hframes⟩ := @resolveAddress_spec locations address hne
  rw [heq]
  constructor
  · intro h
    rw [← Except.ok.inj h]
    exact hframes
  · intro h
    rw [h.unique hframes]

end Search

/-! ## The closest row -/

section Closest

variable {rows : List Location} {address : UInt64}

/-- No other row of the table starts between row `i` and the address. -/
def ClosestRow (locations : List Location) (address : UInt64) (i : ℕ) : Prop :=
  ∃ row, locations[i]? = some row ∧ row.address ≤ address ∧
    ∀ j row', 1 ≤ j → locations[j]? = some row' →
      ¬ (row.address < row'.address ∧ row'.address ≤ address)

/-- Whenever an address is resolved to a row, that row is the closest one before it. -/
def ResolvesClosest (rows : List Location) (address : UInt64) : Prop :=
  ∀ i, resolveAddress (lineTable rows) address = .ok [i] → i ≠ 0 →
    ClosestRow (lineTable rows) address i

/-- Some row of the table starts between row `i` and the address. -/
def JumpsOver (locations : List Location) (address : UInt64) (i : ℕ) : Prop :=
  ∃ row j row', locations[i]? = some row ∧ 1 ≤ j ∧ locations[j]? = some row' ∧
    row.address < row'.address ∧ row'.address ≤ address

/-- A pair of rows around the address that jumps over another row comes after a pair around the
address. -/
def JumpsLate (rows : List Location) (address : UInt64) : Prop :=
  ∀ i, Brackets (lineTable rows) address i → JumpsOver (lineTable rows) address i →
    ∃ k, k < i ∧ Brackets (lineTable rows) address k

/-- **When the frame shown is the closest row.**  The search takes the first pair of neighbours in
the table that has the address between them, and a table of several units need not be sorted.  So
the row found is the closest one before the address, for any table and address, just if no pair that
jumps over another row comes first. -/
theorem resolveAddress_closest_iff (rows : List Location) (address : UInt64) :
    ResolvesClosest rows address ↔ JumpsLate rows address := by
  have hne : lineTable rows ≠ [] := List.cons_ne_nil _ _
  constructor
  · intro h i hi hjump
    by_contra hnone
    simp only [not_exists, not_and] at hnone
    have hfirst : FirstBracket (lineTable rows) address i := ⟨hi, hnone⟩
    have hi0 : i ≠ 0 := Nat.pos_iff_ne_zero.mp hi.1
    obtain ⟨row, hrow, -, hclosest⟩ := h i ((resolveAddress_eq_ok hne).mpr (.row hfirst)) hi0
    obtain ⟨row₀, j, row', hrow₀, hj, hrow', hlt, hle⟩ := hjump
    rw [hrow] at hrow₀
    cases hrow₀
    exact hclosest j row' hj hrow' ⟨hlt, hle⟩
  · intro h i hres hi0
    cases (resolveAddress_eq_ok hne).mp hres with
    | unknown _ _ => exact absurd rfl hi0
    | row hfirst =>
        obtain ⟨-, -, row, next, hrow, hnext, hle, hlt⟩ := hfirst.1
        refine ⟨row, hrow, hle, fun j row' hj hrow' hbetween => ?_⟩
        obtain ⟨k, hk, hbracket⟩ := h i hfirst.1 ⟨row, j, row', hrow, hj, hrow', hbetween⟩
        exact hfirst.2 k hk hbracket

/-- In a table whose rows are in ascending order no pair jumps over a row. -/
lemma jumpsLate_of_sorted (hsorted : rows.Pairwise fun p q => p.address ≤ q.address) :
    JumpsLate rows address := by
  intro i hi hjump
  obtain ⟨h1, -, row, next, hrow, hnext, -, hnextlt⟩ := hi
  obtain ⟨row₀, j, row', hrow₀, hj, hrow', hlt, hle⟩ := hjump
  rw [hrow] at hrow₀
  cases hrow₀
  obtain ⟨i, rfl⟩ : ∃ i', i = i' + 1 := ⟨i - 1, by omega⟩
  obtain ⟨j, rfl⟩ : ∃ j', j = j' + 1 := ⟨j - 1, by omega⟩
  rw [lineTable, List.getElem?_cons_succ] at hrow hnext hrow'
  obtain ⟨hi', rfl⟩ := List.getElem?_eq_some_iff.mp hrow
  obtain ⟨hi'', rfl⟩ := List.getElem?_eq_some_iff.mp hnext
  obtain ⟨hj', rfl⟩ := List.getElem?_eq_some_iff.mp hrow'
  have hmono := List.pairwise_iff_getElem.mp hsorted
  rcases Nat.lt_trichotomy i j with h | rfl | h
  · have hnextle : rows[i + 1].address ≤ rows[j].address := by
      rcases Nat.lt_or_eq_of_le (show i + 1 ≤ j from h) with h | rfl
      · exact hmono _ _ hi'' hj' h
      · exact le_refl _
    exact absurd (lt_of_lt_of_le hnextlt (le_trans hnextle hle)) (lt_irrefl _)
  · exact absurd hlt (lt_irrefl _)
  · exact absurd (lt_of_lt_of_le hlt (hmono _ _ hj' hi' h)) (lt_irrefl _)

end Closest

/-- Two sequences, the second of which starts between the rows of the first. -/
def twoSequences : List Location :=
  [⟨"a.c".toList, 1, 0x10⟩, ⟨"a.c".toList, 2, 0x100⟩, ⟨"b.c".toList, 1, 0x20⟩,
    ⟨"b.c".toList, 2, 0x30⟩]

theorem twoSequences_not_closest : ¬ ResolvesClosest twoSequences 0x25 := by
  intro h
  obtain ⟨row, hrow, -, hclosest⟩ := h 1 rfl (by decide)
  cases hrow
  exact hclosest 3 _ (by decide) rfl (by decide)

/-! ## The extraction loop -/

/-- The frames an address adds, as a list. -/
def addressFrames (locations : List Location) (address : UInt64) : List ℕ :=
  match resolveAddress locations address with
  | .ok frames => frames
  | .error _ => []

section Extraction

variable {junk : Junk} {rows : List Location}

lemma resolveAddress_lineTable (rows : List Location) (address : UInt64) :
    resolveAddress (lineTable rows) address = .ok (addressFrames (lineTable rows) address) ∧
      FramesOf (lineTable rows) address (addressFrames (lineTable rows) address) := by
  obtain ⟨frames, heq, hframes⟩ :=
    @resolveAddress_spec (lineTable rows) address (List.cons_ne_nil _ _)
  have hlist : addressFrames (lineTable rows) address = frames := by rw [addressFrames, heq]
  rw [hlist]
  exact ⟨heq, hframes⟩

lemma contextLoop_succ (n : ℕ) (t : Text) (context : List ℕ) : ∃ a,
    contextLoop junk (lineTable rows) (n + 1) (Istream.ofText t) context
      = (if (afterHex t).isEmpty then .ok context
        else contextLoop junk (lineTable rows) n ⟨afterHex t, false, (hexNumber t).isNone⟩
          (context ++ addressFrames (lineTable rows) a)) ∧
      ∀ x, hexNumber t = some x → a = x := by
  obtain ⟨a, hget, hvalue⟩ := getHex_ofText t junk.word
  refine ⟨a, ?_, hvalue⟩
  rw [contextLoop, hget]
  cases hempty : (afterHex t).isEmpty with
  | true => rfl
  | false =>
      show (resolveAddress (lineTable rows) a >>= _) = _
      rw [(resolveAddress_lineTable rows a).1]
      rfl

/-- A stream that fails before its end is not seen to end: the loop goes on. -/
lemma contextLoop_failed (rest : Text) : ∀ (n : ℕ) (context : List ℕ),
    contextLoop junk (lineTable rows) n ⟨rest, false, true⟩ context = .error .outOfFuel
  | 0, _ => rfl
  | n + 1, context => by
      rw [contextLoop, getHex_failed rfl]
      show (resolveAddress (lineTable rows) junk.word >>= _) = _
      rw [(resolveAddress_lineTable rows junk.word).1]
      exact contextLoop_failed rest n _

lemma contextLoop_reads {t : Text} {as : List UInt64} (h : ReadsAddresses t as) :
    ∀ {n : ℕ} (context : List ℕ), as.length < n →
      contextLoop junk (lineTable rows) n (Istream.ofText t) context
        = .ok (context ++ as.flatMap (addressFrames (lineTable rows))) := by
  induction h with
  | @last t hend =>
      intro n context hn
      obtain ⟨n, rfl⟩ : ∃ m, n = m + 1 := ⟨n - 1, by simp at hn; omega⟩
      obtain ⟨a, hround, -⟩ := @contextLoop_succ junk rows n t context
      rw [hround, hend]
      simp
  | @next t a as hne ha _ ih =>
      intro n context hn
      obtain ⟨n, rfl⟩ : ∃ m, n = m + 1 := ⟨n - 1, by omega⟩
      obtain ⟨b, hround, hvalue⟩ := @contextLoop_succ junk rows n t context
      have hempty : (afterHex t).isEmpty = false := by simpa using hne
      rw [hround, hempty, hvalue a ha, ha]
      show contextLoop junk (lineTable rows) n (Istream.ofText (afterHex t)) _ = _
      rw [ih _ (Nat.lt_of_succ_lt_succ hn), List.flatMap_cons, List.append_assoc]

/-- What the loop returned from was numbers up to its end. -/
lemma reads_of_contextLoop : ∀ {n : ℕ} {t : Text} {context frames : List ℕ},
    contextLoop junk (lineTable rows) n (Istream.ofText t) context = .ok frames →
      ∃ as, ReadsAddresses t as
  | n + 1, t, context, frames, h => by
      obtain ⟨a, hround, -⟩ := @contextLoop_succ junk rows n t context
      rw [hround] at h
      by_cases hend : afterHex t = []
      · exact ⟨[], .last hend⟩
      · have hempty : (afterHex t).isEmpty = false := by simpa using hend
        rw [hempty, if_neg Bool.false_ne_true] at h
        cases hnum : hexNumber t with
        | none =>
            rw [hnum, Option.isNone_none, contextLoop_failed] at h
            cases h
        | some x =>
            rw [hnum, Option.isNone_some] at h
            obtain ⟨as, has⟩ := reads_of_contextLoop h
            exact ⟨x :: as, .next hend hnum has⟩

lemma contextLoop_eq_ok {n : ℕ} {t : Text} {frames : List ℕ}
    (h : contextLoop junk (lineTable rows) n (Istream.ofText t) [] = .ok frames) :
    ∃ as, ReadsAddresses t as ∧ frames = as.flatMap (addressFrames (lineTable rows)) := by
  obtain ⟨as, has⟩ := reads_of_contextLoop h
  have hmore := contextLoop_mono (Nat.le_add_right n (as.length + 1)) h
  rw [contextLoop_reads has [] (by omega)] at hmore
  exact ⟨as, has, (Except.ok.inj hmore).symm⟩

end Extraction

/-- The extraction loop over `s` returns, after some number of rounds. -/
def ContextLoopEnds (junk : Junk) (rows : List Location) (s : Text) : Prop :=
  ∃ n frames, ∀ fuel, n ≤ fuel →
    contextLoop junk (lineTable rows) fuel (Istream.ofText s) [] = .ok frames

/-- **When the extraction loop ends.**  Before the end of the text is seen, every attempt has to
find a number; the first that finds none goes on forever, since a stream that has failed reads
nothing more and never sees the end.  This is about any text, and the table has no part in it. -/
theorem contextLoop_ends_iff (junk : Junk) (rows : List Location) (s : Text) :
    ContextLoopEnds junk rows s ↔ ∃ as, ReadsAddresses s as := by
  constructor
  · rintro ⟨n, frames, h⟩
    exact reads_of_contextLoop (h n (le_refl n))
  · rintro ⟨as, has⟩
    exact ⟨as.length + 1, as.flatMap (addressFrames (lineTable rows)),
      fun fuel hfuel => contextLoop_reads has [] hfuel⟩

lemma not_readsAddresses {t : Text} (hnone : hexNumber t = none) (hend : afterHex t ≠ []) :
    ¬ ∃ as, ReadsAddresses t as := by
  rintro ⟨as, has⟩
  cases has with
  | last h => exact hend h
  | next _ ha _ => exact absurd (hnone.symm.trans ha) (by simp)

/-- What the recorder prints for a zero instruction pointer is not a number. -/
theorem unknownRoutine_not_ends :
    ¬ ContextLoopEnds ⟨'?', 0⟩ twoSequences " [Unknown routine] 0x400110".toList := by
  rintro ⟨n, frames, h⟩
  exact not_readsAddresses (by decide) (by decide) (reads_of_contextLoop (h n (le_refl n)))

/-! ## The trimming loop -/

/-- `*(frame->file) == "UNKNOWN"`, for a frame of the table. -/
def isUnknown (locations : List Location) (frame : ℕ) : Bool :=
  (locations[frame]?).any fun location => location.file = "UNKNOWN".toList

/-- The loop drops unknown frames, and does not stop before a frame that is none. -/
lemma trimLoop_spec {locations : List Location} : ∀ {context : List ℕ},
    (∀ frame ∈ context, frame < locations.length) → trimLoop locations context
      = if context.all (isUnknown locations) then .error .emptyContainer
        else .ok (context.dropWhile (isUnknown locations))
  | [], _ => rfl
  | frame :: rest, h => by
      obtain ⟨location, hframe⟩ : ∃ location, locations[frame]? = some location :=
        ⟨_, List.getElem?_eq_getElem (h frame List.mem_cons_self)⟩
      have hunknown : isUnknown locations frame = decide (location.file = "UNKNOWN".toList) := by
        rw [isUnknown, hframe]
        rfl
      have ih := @trimLoop_spec locations rest fun f hf => h f (List.mem_cons_of_mem _ hf)
      rw [trimLoop, vectorAt_of_getElem? hframe, checked_ok_bind, List.all_cons,
        List.dropWhile_cons, hunknown, ih]
      by_cases hfile : location.file = "UNKNOWN".toList
      · rw [if_pos hfile, decide_eq_true hfile, Bool.true_and]
        rfl
      · rw [if_neg hfile, decide_eq_false hfile, Bool.false_and]
        rfl

/-- The address adds a frame. -/
def Framed (locations : List Location) (address : UInt64) : Prop :=
  (∃ i, Brackets locations address i) ∨
    max 1 (searchEnd locations) = locations.length - 1

/-- The address lies in a row whose file is known. -/
def Known (locations : List Location) (address : UInt64) : Prop :=
  ∃ i row, FirstBracket locations address i ∧ locations[i]? = some row ∧
    row.file ≠ "UNKNOWN".toList

section Frames

variable {rows : List Location} {address : UInt64} {frames : List ℕ}

lemma framesOf_ne_nil (h : FramesOf (lineTable rows) address frames) :
    frames ≠ [] ↔ Framed (lineTable rows) address := by
  cases h with
  | row h => exact ⟨fun _ => Or.inl ⟨_, h.1⟩, fun _ => List.cons_ne_nil _ _⟩
  | unknown h hend => exact ⟨fun _ => Or.inr hend, fun _ => List.cons_ne_nil _ _⟩
  | none h hend =>
      refine ⟨fun hne => absurd rfl hne, fun hframed => ?_⟩
      rcases hframed with ⟨i, hi⟩ | hend'
      · exact absurd hi (h i)
      · exact absurd hend' hend

lemma framesOf_known (h : FramesOf (lineTable rows) address frames) :
    (∃ frame ∈ frames, isUnknown (lineTable rows) frame = false) ↔
      Known (lineTable rows) address := by
  cases h with
  | @row i h =>
      obtain ⟨-, -, row, next, hrow, -⟩ := h.1
      have hunknown : isUnknown (lineTable rows) i = decide (row.file = "UNKNOWN".toList) := by
        rw [isUnknown, hrow]
        rfl
      simp only [List.mem_singleton, exists_eq_left, hunknown, decide_eq_false_iff_not]
      constructor
      · exact fun hfile => ⟨i, row, h, hrow, hfile⟩
      · rintro ⟨i', row', h', hrow', hfile⟩
        rw [h'.unique h, hrow] at hrow'
        cases hrow'
        exact hfile
  | unknown h _ =>
      refine ⟨fun hframe => ?_, fun ⟨i, row, hi, _⟩ => absurd hi.1 (h i)⟩
      obtain ⟨frame, hframe, hknown⟩ := hframe
      rw [List.mem_singleton.mp hframe] at hknown
      exact absurd (show isUnknown (lineTable rows) 0 = true from rfl) (by rw [hknown]; decide)
  | none h _ =>
      refine ⟨fun hframe => ?_, fun ⟨i, row, hi, _⟩ => absurd hi.1 (h i)⟩
      obtain ⟨frame, hframe, -⟩ := hframe
      cases hframe

lemma framesOf_lt (h : FramesOf (lineTable rows) address frames) :
    ∀ frame ∈ frames, frame < (lineTable rows).length := by
  intro frame hframe
  cases h with
  | row h =>
      obtain ⟨-, -, row, next, hrow, -⟩ := h.1
      rw [List.mem_singleton.mp hframe]
      exact (List.getElem?_eq_some_iff.mp hrow).1
  | unknown h _ =>
      rw [List.mem_singleton.mp hframe]
      exact Nat.succ_pos _
  | none h _ => cases hframe

end Frames

/-- The frames the loop extracted are stored without the longest run of unknown frames at their
outermost end, and the loop that removes it stays inside them. -/
def ContextTrimmed (junk : Junk) (rows : List Location) (s : Text) : Prop :=
  ∀ (p : Parsed) (fuel : ℕ) (frames : List ℕ), p.locations = lineTable rows →
    p.contexts s = none →
    contextLoop junk p.locations fuel (Istream.ofText s) [] = .ok frames →
    parseContext fuel junk p s = .ok { p with
      contexts := Function.update p.contexts s (some (frames.rdropWhile (isUnknown p.locations))) }

/-- Of the addresses in front of the end, none adds a frame, or one lies in a known row. -/
def StackKnown (rows : List Location) (s : Text) : Prop :=
  ∀ as, ReadsAddresses s as → (∀ a ∈ as, ¬ Framed (lineTable rows) a) ∨
    ∃ a ∈ as, Known (lineTable rows) a

section Trim

variable {junk : Junk} {rows : List Location} {s : Text} {as : List UInt64}

/-- The frames of all the addresses. -/
def stackFrames (rows : List Location) (as : List UInt64) : List ℕ :=
  as.flatMap (addressFrames (lineTable rows))

lemma stackFrames_eq_nil : stackFrames rows as = [] ↔ ∀ a ∈ as, ¬ Framed (lineTable rows) a := by
  rw [stackFrames, List.flatMap_eq_nil_iff]
  refine forall₂_congr fun a _ => ?_
  rw [← framesOf_ne_nil (resolveAddress_lineTable rows a).2, not_ne_iff]

lemma stackFrames_all : (stackFrames rows as).all (isUnknown (lineTable rows)) = false ↔
    ∃ a ∈ as, Known (lineTable rows) a := by
  rw [List.all_eq_false]
  simp only [stackFrames, List.mem_flatMap, Bool.not_eq_true]
  constructor
  · rintro ⟨frame, ⟨a, ha, hframe⟩, hknown⟩
    exact ⟨a, ha, (framesOf_known (resolveAddress_lineTable rows a).2).mp ⟨frame, hframe, hknown⟩⟩
  · rintro ⟨a, ha, hknown⟩
    obtain ⟨frame, hframe, h⟩ := (framesOf_known (resolveAddress_lineTable rows a).2).mpr hknown
    exact ⟨frame, ⟨a, ha, hframe⟩, h⟩

lemma stackFrames_lt : ∀ frame ∈ stackFrames rows as, frame < (lineTable rows).length := by
  intro frame hframe
  obtain ⟨a, -, hframe⟩ := List.mem_flatMap.mp hframe
  exact framesOf_lt (resolveAddress_lineTable rows a).2 frame hframe

lemma resolveContext_of_loop {fuel : ℕ}
    (h : contextLoop junk (lineTable rows) fuel (Istream.ofText s) [] = .ok (stackFrames rows as)) :
    resolveContext fuel junk (lineTable rows) s
      = if stackFrames rows as = [] then .ok []
        else if (stackFrames rows as).all (isUnknown (lineTable rows)) then .error .emptyContainer
        else .ok ((stackFrames rows as).rdropWhile (isUnknown (lineTable rows))) := by
  rw [resolveContext, h]
  show (if (stackFrames rows as).isEmpty then pure (stackFrames rows as) else
    (trimLoop (lineTable rows) (stackFrames rows as).reverse >>= _)) = _
  rw [trimLoop_spec fun f hf => stackFrames_lt f (List.mem_reverse.mp hf), List.all_reverse]
  simp only [List.isEmpty_iff]
  split_ifs with hnil hall
  · rw [hnil]
    rfl
  · rfl
  · rfl

/-- The trimming loop stays inside the frames, and the context is what it leaves, -/
lemma resolveContext_of_known {fuel : ℕ}
    (h : contextLoop junk (lineTable rows) fuel (Istream.ofText s) [] = .ok (stackFrames rows as))
    (hknown : (∀ a ∈ as, ¬ Framed (lineTable rows) a) ∨ ∃ a ∈ as, Known (lineTable rows) a) :
    resolveContext fuel junk (lineTable rows) s
      = .ok ((stackFrames rows as).rdropWhile (isUnknown (lineTable rows))) := by
  rw [resolveContext_of_loop h]
  by_cases hnil : stackFrames rows as = []
  · rw [if_pos hnil, hnil]
    rfl
  · have hall : (stackFrames rows as).all (isUnknown (lineTable rows)) = false := by
      refine stackFrames_all.mpr (hknown.resolve_left fun hno => ?_)
      exact hnil (stackFrames_eq_nil.mpr hno)
    rw [if_neg hnil, hall]
    rfl

/-- under this condition only. -/
lemma known_of_resolveContext {fuel : ℕ} {context : List ℕ}
    (h : contextLoop junk (lineTable rows) fuel (Istream.ofText s) [] = .ok (stackFrames rows as))
    (hok : resolveContext fuel junk (lineTable rows) s = .ok context) :
    (∀ a ∈ as, ¬ Framed (lineTable rows) a) ∨ ∃ a ∈ as, Known (lineTable rows) a := by
  rw [resolveContext_of_loop h] at hok
  split_ifs at hok with hnil hall
  · exact Or.inl (stackFrames_eq_nil.mp hnil)
  · exact Or.inr (stackFrames_all.mp (Bool.eq_false_iff.mpr hall))

/-- **When the trimming loop stays inside the context.**  The loop takes unknown frames off the
outermost end and does not ask whether one is left.  For every table and every stack text it leaves
exactly what it should if the text gives no frame at all, or one in a known row; otherwise it reads
the end of an empty vector. -/
theorem parseContext_trims_iff (junk : Junk) (rows : List Location) (s : Text) :
    ContextTrimmed junk rows s ↔ StackKnown rows s := by
  constructor
  · intro h as has
    have hloop : contextLoop junk (lineTable rows) (as.length + 1) (Istream.ofText s) []
        = .ok (stackFrames rows as) := contextLoop_reads has [] (Nat.lt_succ_self _)
    have hstored := h { Parsed.empty with locations := lineTable rows } (as.length + 1)
      (stackFrames rows as) rfl rfl hloop
    rw [parseContext, if_neg (by simp [Parsed.empty])] at hstored
    obtain ⟨context, hcontext, -⟩ := checked_bind_eq_ok.mp hstored
    exact known_of_resolveContext hloop hcontext
  · intro h p fuel frames hlocations hnone hloop
    rw [hlocations] at hloop ⊢
    obtain ⟨as, has, rfl⟩ := contextLoop_eq_ok hloop
    rw [parseContext, if_neg (by simp [hnone]), hlocations,
      resolveContext_of_known hloop (h as has)]
    rfl

/-- The stack text is read to its end, and the trimming loop stays inside its frames. -/
def Resolvable (rows : List Location) (s : Text) : Prop :=
  (∃ as, ReadsAddresses s as) ∧ StackKnown rows s

/-- **When a stack text is resolved.** -/
theorem resolveContext_returns_iff :
    (∃ fuel context, resolveContext fuel junk (lineTable rows) s = .ok context) ↔
      Resolvable rows s := by
  constructor
  · rintro ⟨fuel, context, h⟩
    obtain ⟨frames, hloop, -⟩ := checked_bind_eq_ok.mp h
    obtain ⟨as, has, rfl⟩ := contextLoop_eq_ok hloop
    refine ⟨⟨as, has⟩, fun bs hbs => ?_⟩
    rw [hbs.unique has]
    exact known_of_resolveContext hloop h
  · rintro ⟨⟨as, has⟩, hknown⟩
    exact ⟨as.length + 1, _,
      resolveContext_of_known (contextLoop_reads has [] (Nat.lt_succ_self _)) (hknown as has)⟩

end Trim

/-- The two addresses in front of the end are outside the table. -/
theorem libraryStack_not_trimmed :
    ¬ ContextTrimmed ⟨'?', 0⟩ twoSequences " 0x7f00 0x7f10 0x7f20".toList := by
  intro h
  have hstored := h { Parsed.empty with locations := lineTable twoSequences } 3 [0, 0] rfl rfl rfl
  have hfault : parseContext 3 ⟨'?', 0⟩ { Parsed.empty with locations := lineTable twoSequences }
      " 0x7f00 0x7f10 0x7f20".toList = .error .emptyContainer := rfl
  rw [hfault] at hstored
  cases hstored

end PerVERT
