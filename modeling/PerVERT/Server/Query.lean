import PerVERT.Backend.ParseLine

/-!
# `QueryLayer`

The query string of a request as a map.  Positions in it are `int`s, so a string of `2 ^ 31`
characters or more is read wrongly, or never to its end.

* `findInt`, `splitLoop`, `queryEntries` — the entries between the `&`s.
* `parseEntry`, `parseEntries`, `parseQuery` — the map they make; `none` for an entry without `=`.
* **`queryEntries_eq`**, **`parseEntry_eq`** — on a shorter string these are the pieces that
  `List.splitOn` gives, and the cut at the first `=`.
-/

namespace PerVERT

/-! ## `std::string` -/

/-- The conversion of an `int` to `size_t`. -/
def toSizeT (x : ℤ) : ℕ := (x % 2 ^ 64).toNat

/-- `s.find(c, pos)`. -/
def find (s : Text) (c : Char) (pos : ℕ) : Option ℕ :=
  ((s.drop pos).findIdx? (· == c)).map fun i => pos + i

/-- `int i = s.find(c, pos)`.  `npos` becomes `-1`, which is `npos` when compared with it. -/
def findInt (s : Text) (c : Char) (pos : ℤ) : ℤ :=
  match find s c (toSizeT pos) with
  | some i => toInt i
  | none => -1

/-! ## The entries -/

/-- The loop over the `&`s from `start` on: the entries in front of them, and where the rest
begins. -/
def splitLoop (all : Text) : ℕ → ℤ → Checked (ℤ × List Text)
  | 0, _ => .error .outOfFuel
  | n + 1, start =>
      let stop := findInt all '&' start
      if stop = -1 then pure (start, [])
      else do
        let length ← intAdd stop (-start)
        let entry ← substr all (toSizeT start) (some (toSizeT length))
        let start ← intAdd stop 1
        let (start, entries) ← splitLoop all n start
        pure (start, entry :: entries)

/-- The entries of a query string. -/
def queryEntries (fuel : ℕ) (all : Text) : Checked (List Text) :=
  if '&' ∈ all then do
    let (start, entries) ← splitLoop all fuel 0
    let length := toSizeT (all.length - start)
    if 0 < length then
      let entry ← substr all (toSizeT start) (some length)
      pure (entries ++ [entry])
    else pure entries
  else pure [all]

/-! ## The map -/

/-- `QueryData`. -/
structure QueryData where
  data : Std.TreeMap Text Text

def QueryData.empty : QueryData := ⟨{}⟩

/-- `QueryData::exists`. -/
def QueryData.exists_ (qd : QueryData) (value : Text) : Bool := qd.data.contains value

/-- `QueryData::get`. -/
def QueryData.get (qd : QueryData) (value : Text) : Text :=
  if qd.exists_ value then qd.data.getD value [] else []

/-- Key and value of an entry, if it has a `=`. -/
def parseEntry (entry : Text) : Checked (Option (Text × Text)) :=
  let l := findInt entry '=' 0
  if l = -1 then pure none
  else do
    let key ← substr entry 0 (some (toSizeT l))
    let next ← intAdd l 1
    let value ← substr entry (toSizeT next) (some (toSizeT (entry.length - l - 1)))
    pure (some (key, value))

/-- The loop over the entries. -/
def parseEntries : List Text → QueryData → Checked (Option QueryData)
  | [], qd => pure (some qd)
  | entry :: rest, qd => do
      match ← parseEntry entry with
      | some (key, value) => parseEntries rest ⟨qd.data.insert key value⟩
      | none => pure none

/-- What `QueryLayer::handle` makes of a query string. -/
def parseQuery (fuel : ℕ) (query_string : Text) : Checked (Option QueryData) := do
  let entries ← queryEntries fuel query_string
  parseEntries entries QueryData.empty

/-! ## Short strings -/

section Short

variable {s pre piece rest : Text} {c : Char}

lemma toSizeT_natCast {n : ℕ} (h : n < 2 ^ 31) : toSizeT n = n := by
  rw [toSizeT]
  omega

lemma findInt_append (hpiece : c ∉ piece) (h : (pre ++ piece ++ c :: rest).length < 2 ^ 31) :
    findInt (pre ++ piece ++ c :: rest) c pre.length = (pre.length + piece.length : ℕ) := by
  simp only [List.length_append, List.length_cons] at h
  have hfind : (piece ++ c :: rest).findIdx? (· == c) = some piece.length := by
    rw [List.findIdx?_append, List.findIdx?_eq_none_iff.mpr]
    · simp [List.findIdx?_cons]
    · intro x hx
      simp only [beq_eq_false_iff_ne, ne_eq]
      intro hxc
      exact hpiece (hxc ▸ hx)
  rw [findInt, find, toSizeT_natCast (by omega), List.append_assoc, List.drop_left, hfind]
  show toInt (pre.length + piece.length : ℕ) = _
  exact toInt_of_inInt (by rw [InInt]; omega)

lemma findInt_none (hrest : c ∉ rest) (h : (pre ++ rest).length < 2 ^ 31) :
    findInt (pre ++ rest) c pre.length = -1 := by
  rw [List.length_append] at h
  have hfind : rest.findIdx? (· == c) = none := by
    simp only [List.findIdx?_eq_none_iff, beq_eq_false_iff_ne, ne_eq]
    intro x hx hxc
    exact hrest (hxc ▸ hx)
  rw [findInt, find, toSizeT_natCast (by omega), List.drop_left, hfind]
  rfl

lemma substr_append (h : (pre ++ piece ++ rest).length < 2 ^ 31) :
    substr (pre ++ piece ++ rest) (toSizeT pre.length) (some (toSizeT piece.length))
      = .ok piece := by
  simp only [List.length_append] at h
  rw [toSizeT_natCast (by omega), toSizeT_natCast (by omega), substr, if_neg (by simp),
    List.append_assoc, List.drop_left, takeUpTo, List.take_left]

/-- **The loop over the `&`s** behind a prefix. -/
theorem splitLoop_eq : ∀ {n : ℕ} {pre rest : Text}, (pre ++ rest).length < 2 ^ 31 →
    rest.length < n → ∃ pre' last, pre ++ rest = pre' ++ last ∧
      rest.splitOn '&' = (rest.splitOn '&').dropLast ++ [last] ∧
      splitLoop (pre ++ rest) n pre.length = .ok ((pre'.length : ℤ), (rest.splitOn '&').dropLast)
  | n + 1, pre, rest, h, hn => by
      by_cases hamp : '&' ∈ rest
      · obtain ⟨piece, rest', rfl, hpiece⟩ := List.eq_append_cons_of_mem hamp
        have hall : pre ++ (piece ++ '&' :: rest') = (pre ++ piece ++ ['&']) ++ rest' := by simp
        have hlen := h
        simp only [List.length_append, List.length_cons] at hlen hn
        obtain ⟨pre', last, hsplit, hlast, hloop⟩ :=
          @splitLoop_eq n (pre ++ piece ++ ['&']) rest' (by rw [← hall]; exact h) (by omega)
        refine ⟨pre', last, by rw [hall, hsplit], ?_, ?_⟩
        · rw [List.splitOn_append_cons_self_of_not_mem hpiece,
            List.dropLast_cons_of_ne_nil (List.splitOn_ne_nil _ _), List.cons_append, ← hlast]
        · have hfind : findInt (pre ++ (piece ++ '&' :: rest')) '&' pre.length
              = (pre.length + piece.length : ℕ) := by
            rw [← List.append_assoc] at h ⊢
            exact findInt_append hpiece h
          have hlength : intAdd ((pre.length + piece.length : ℕ) : ℤ) (-(pre.length : ℤ))
              = .ok (piece.length : ℤ) :=
            intAdd_eq_ok.mpr ⟨by rw [InInt]; omega, by omega⟩
          have hentry : substr (pre ++ (piece ++ '&' :: rest')) (toSizeT pre.length)
              (some (toSizeT piece.length)) = .ok piece := by
            rw [← List.append_assoc] at h ⊢
            exact substr_append h
          have hnext : intAdd ((pre.length + piece.length : ℕ) : ℤ) 1
              = .ok ((pre ++ piece ++ ['&']).length : ℤ) :=
            intAdd_eq_ok.mpr ⟨by rw [InInt]; omega, by simp [Int.add_assoc]⟩
          rw [splitLoop]
          simp only [hfind]
          rw [if_neg (by omega), hlength, checked_ok_bind, hentry, checked_ok_bind, hnext,
            checked_ok_bind, hall, hloop, checked_ok_bind,
            List.splitOn_append_cons_self_of_not_mem hpiece,
            List.dropLast_cons_of_ne_nil (List.splitOn_ne_nil _ _)]
          rfl
      · rw [List.splitOn_eq_singleton hamp]
        refine ⟨pre, rest, rfl, rfl, ?_⟩
        rw [splitLoop]
        simp only [findInt_none hamp h]
        rfl

/-- The pieces of a query string between its `&`s, without an empty one at its end. -/
def queryPieces (q : Text) : List Text :=
  if '&' ∈ q ∧ (q.splitOn '&').getLast? = some [] then (q.splitOn '&').dropLast else q.splitOn '&'

/-- **The entries of a short query string.** -/
theorem queryEntries_eq {q : Text} {fuel : ℕ} (h : q.length < 2 ^ 31) (hfuel : q.length < fuel) :
    queryEntries fuel q = .ok (queryPieces q) := by
  by_cases hamp : '&' ∈ q
  · obtain ⟨pre', last, hsplit, hlast, hloop⟩ := @splitLoop_eq fuel [] q h hfuel
    rw [List.nil_append] at hsplit hloop
    have hgetLast : (q.splitOn '&').getLast? = some last := by
      rw [hlast]
      simp
    have hrest : toSizeT (q.length - pre'.length) = last.length := by
      have hlength : q.length = pre'.length + last.length := by rw [hsplit, List.length_append]
      have hcast : ((q.length : ℤ) - pre'.length) = (last.length : ℕ) := by omega
      rw [hcast]
      exact toSizeT_natCast (by omega)
    rw [queryEntries, if_pos hamp]
    show (splitLoop q fuel (([] : Text).length : ℤ) >>= _) = _
    rw [hloop, checked_ok_bind]
    show (if 0 < toSizeT (q.length - pre'.length) then _ else _) = _
    rw [hrest, queryPieces, hgetLast]
    by_cases hempty : last = []
    · rw [hempty, List.length_nil, if_neg (Nat.lt_irrefl 0), if_pos ⟨hamp, rfl⟩]
      rfl
    · have hpos : 0 < last.length := List.length_pos_iff.mpr hempty
      have hentry : substr q (toSizeT pre'.length) (some last.length) = .ok last := by
        rw [hsplit] at h ⊢
        rw [List.length_append] at h
        rw [toSizeT_natCast (by omega), substr, if_neg (by simp), List.drop_left, takeUpTo,
          List.take_length]
      rw [if_pos hpos, hentry, checked_ok_bind, if_neg (by simp [hempty]), hlast]
      simp
      rfl
  · rw [queryEntries, if_neg hamp, queryPieces, if_neg (fun hc => hamp hc.1),
      List.splitOn_eq_singleton hamp]
    rfl

/-- The cut of an entry at its first `=`. -/
def cutEntry (entry : Text) : Option (Text × Text) :=
  if '=' ∈ entry then
    some (entry.takeWhile (· ≠ '='), (entry.dropWhile (· ≠ '=')).tail)
  else none

/-- **Key and value of a short entry.** -/
theorem parseEntry_eq {entry : Text} (h : entry.length < 2 ^ 31) :
    parseEntry entry = .ok (cutEntry entry) := by
  by_cases heq : '=' ∈ entry
  · obtain ⟨key, value, rfl, hkey⟩ := List.eq_append_cons_of_mem heq
    have hstop : ∀ x ∈ key, decide (x ≠ '=') = true := by
      intro x hx
      simp only [ne_eq, decide_not, Bool.not_eq_true', decide_eq_false_iff_not]
      intro hxe
      exact hkey (hxe ▸ hx)
    have hfind : findInt (key ++ '=' :: value) '=' 0 = (key.length : ℕ) := by
      have hfind := @findInt_append [] key value '=' hkey h
      rwa [List.nil_append, List.length_nil, Nat.zero_add] at hfind
    rw [List.length_append, List.length_cons] at h
    have hkey' : substr (key ++ '=' :: value) 0 (some (toSizeT key.length)) = .ok key := by
      rw [toSizeT_natCast (by omega), substr, if_neg (by simp), List.drop_zero, takeUpTo,
        List.take_left]
    have hnext : intAdd (key.length : ℤ) 1 = .ok ((key.length + 1 : ℕ) : ℤ) :=
      intAdd_eq_ok.mpr ⟨by rw [InInt]; omega, by omega⟩
    have hrest : toSizeT (((key ++ '=' :: value).length : ℤ) - key.length - 1) = value.length := by
      have hcast : (((key ++ '=' :: value).length : ℤ) - key.length - 1) = (value.length : ℕ) := by
        rw [List.length_append, List.length_cons]
        omega
      rw [hcast]
      exact toSizeT_natCast (by omega)
    have hvalue : substr (key ++ '=' :: value) (toSizeT (key.length + 1 : ℕ))
        (some value.length) = .ok value := by
      have hdrop : (key ++ '=' :: value).drop (key.length + 1) = value := by
        rw [← List.drop_drop, List.drop_left]
        rfl
      rw [toSizeT_natCast (by omega), substr, if_neg (by simp), hdrop, takeUpTo, List.take_length]
    rw [parseEntry]
    simp only [hfind]
    rw [if_neg (by omega), hkey', checked_ok_bind, hnext, checked_ok_bind, hrest, hvalue,
      checked_ok_bind, cutEntry, if_pos heq, List.takeWhile_append_of_pos hstop,
      List.dropWhile_append_of_pos hstop]
    simp
    rfl
  · have hfind : findInt entry '=' 0 = -1 := @findInt_none [] entry '=' heq h
    rw [parseEntry, cutEntry, if_neg heq]
    simp only [hfind]
    rfl

lemma length_of_mem_splitOn {q : Text} (h : piece ∈ q.splitOn c) : piece.length ≤ q.length := by
  induction q generalizing piece with
  | nil =>
      rw [List.splitOn_nil, List.mem_singleton] at h
      simp [h]
  | cons x q ih =>
      rw [List.splitOn_cons_eq_if_modifyHead] at h
      split_ifs at h
      · rcases List.mem_cons.mp h with rfl | h
        · simp
        · exact Nat.le_succ_of_le (ih h)
      · cases hq : q.splitOn c with
        | nil => exact absurd hq (List.splitOn_ne_nil c q)
        | cons first others =>
            rw [hq, List.modifyHead_cons] at h
            rcases List.mem_cons.mp h with rfl | h
            · exact Nat.succ_le_succ (ih (by simp [hq]))
            · exact Nat.le_succ_of_le (ih (by simp [hq, h]))

lemma length_of_mem_queryPieces {q : Text} (h : piece ∈ queryPieces q) :
    piece.length ≤ q.length := by
  rw [queryPieces] at h
  split_ifs at h
  · exact length_of_mem_splitOn (List.dropLast_subset _ h)
  · exact length_of_mem_splitOn h

/-- Short entries are read to their end. -/
lemma parseEntries_returns : ∀ {entries : List Text} (qd : QueryData),
    (∀ entry ∈ entries, entry.length < 2 ^ 31) → ∃ r, parseEntries entries qd = .ok r
  | [], qd, _ => ⟨some qd, rfl⟩
  | entry :: rest, qd, h => by
      rw [parseEntries, parseEntry_eq (h entry List.mem_cons_self), checked_ok_bind]
      cases cutEntry entry with
      | none => exact ⟨none, rfl⟩
      | some kv => exact parseEntries_returns _ fun x hx => h x (List.mem_cons_of_mem _ hx)

/-- **A short query string** is read to its end. -/
theorem parseQuery_returns {q : Text} {fuel : ℕ} (h : q.length < 2 ^ 31)
    (hfuel : q.length < fuel) : ∃ r, parseQuery fuel q = .ok r := by
  rw [parseQuery, queryEntries_eq h hfuel, checked_ok_bind]
  exact parseEntries_returns _ fun entry hentry =>
    lt_of_le_of_lt (length_of_mem_queryPieces hentry) h

end Short

end PerVERT
