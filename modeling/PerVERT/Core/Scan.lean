import PerVERT.Core.Istream

/-!
# What an extraction makes of any text

`Core/Istream.lean` reads texts that continue as expected.  A program that is handed any text at
all needs the other cases too: this file says what `in >> hex >> x` does to a good stream whatever
is on it, as a function of the text.

* `hexNumber t`, `afterHex t` — the number at the head of `t`, if there is one, and what an attempt
  to read it leaves.
* `getHex_ofText`, **`getHex_some`** — the extraction, in these terms.
* `ReadsAddresses t as` — the text is numbers one behind the other up to its end, and `as` are those
  with something behind them.
-/

namespace PerVERT

/-- The sign, the digits, and what follows them, at the head of a text. -/
def scanHex (t : Text) : Bool × Text × Text :=
  let (negative, cs) := takeSign (t.dropWhile isSpace)
  let cs := dropHexPrefix cs
  (negative, cs.takeWhile isHexDigit, cs.dropWhile isHexDigit)

/-- What an attempt to read a number leaves. -/
def afterHex (t : Text) : Text := (scanHex t).2.2

/-- The number at the head of a text: it has digits, and is less than `2 ^ 64`. -/
def hexNumber (t : Text) : Option UInt64 :=
  match scanHex t with
  | (negative, digits, _) =>
      if digits = [] ∨ 2 ^ 64 ≤ hexValue digits then none
      else
        let x := UInt64.ofNat (hexValue digits)
        some (if negative then -x else x)

@[simp] lemma hexNumber_nil : hexNumber [] = none := rfl

section Extraction

variable {t : Text} {x : UInt64}

/-- The extraction on a good stream, in one piece. -/
lemma getHex_scan {negative : Bool} {digits rest : Text}
    (hscan : scanHex t = (negative, digits, rest)) (old : UInt64) :
    ∃ y, (Istream.ofText t).getHex old = if digits = [] then (y, ⟨rest, rest.isEmpty, true⟩)
      else if 2 ^ 64 ≤ hexValue digits then (-1, ⟨rest, rest.isEmpty, true⟩)
      else (if negative then -UInt64.ofNat (hexValue digits) else UInt64.ofNat (hexValue digits),
        ⟨rest, rest.isEmpty, false⟩) := by
  simp only [scanHex, Prod.mk.injEq] at hscan
  obtain ⟨rfl, rfl, rfl⟩ := hscan
  simp only [Istream.getHex, Istream.sentry, Istream.ofText, Bool.or_self, Bool.false_eq_true,
    if_false]
  cases t.dropWhile isSpace with
  | nil => exact ⟨old, rfl⟩
  | cons c cs => exact ⟨0, rfl⟩

lemma getHex_ofText (t : Text) (old : UInt64) : ∃ y, (Istream.ofText t).getHex old
    = (y, ⟨afterHex t, (afterHex t).isEmpty, (hexNumber t).isNone⟩) ∧
      ∀ x, hexNumber t = some x → y = x := by
  cases hscan : scanHex t with
  | mk negative digitsRest =>
      obtain ⟨digits, rest⟩ := digitsRest
      obtain ⟨y, hy⟩ := getHex_scan hscan old
      simp only [afterHex, hexNumber, hscan]
      by_cases hnil : digits = []
      · rw [if_pos hnil] at hy
        rw [if_pos (Or.inl hnil)]
        exact ⟨y, hy, by simp⟩
      · rw [if_neg hnil] at hy
        by_cases hbig : 2 ^ 64 ≤ hexValue digits
        · rw [if_pos hbig] at hy
          rw [if_pos (Or.inr hbig)]
          exact ⟨-1, hy, by simp⟩
        · rw [if_neg hbig] at hy
          rw [if_neg (not_or.mpr ⟨hnil, hbig⟩)]
          exact ⟨_, hy, fun x hx => Option.some.inj hx⟩

/-- **A number is read**, where there is one. -/
theorem getHex_some (h : hexNumber t = some x) (old : UInt64) :
    (Istream.ofText t).getHex old = (x, ⟨afterHex t, (afterHex t).isEmpty, false⟩) := by
  obtain ⟨y, hy, hx⟩ := getHex_ofText t old
  rw [hy, hx x h, h]
  rfl

/-- With something behind the number, the stream stays good. -/
lemma getHex_continues (h : hexNumber t = some x) (hne : afterHex t ≠ []) (old : UInt64) :
    (Istream.ofText t).getHex old = (x, Istream.ofText (afterHex t)) := by
  rw [getHex_some h, List.isEmpty_eq_false_iff.mpr hne]
  rfl

lemma getChar_some {c : Char} {rest : Text} (h : t.dropWhile isSpace = c :: rest) (old : Char) :
    (Istream.ofText t).getChar old = (c, Istream.ofText rest) := by
  simp [Istream.getChar, Istream.sentry, Istream.ofText, h]

/-- A stream that has failed reads nothing, and stays as it is. -/
lemma getHex_failed {s : Istream} (h : s.fail = true) (old : UInt64) : s.getHex old = (old, s) := by
  cases s with
  | mk rest eof fail =>
      subst h
      simp [Istream.getHex, Istream.sentry]

lemma getChar_failed {s : Istream} (h : s.fail = true) (old : Char) : s.getChar old = (old, s) := by
  cases s with
  | mk rest eof fail =>
      subst h
      simp [Istream.getChar, Istream.sentry]

lemma getline_failed {s : Istream} (h : s.fail = true) (old : Text) : s.getline old = (old, s) := by
  cases s with
  | mk rest eof fail =>
      subst h
      simp [Istream.getline]

end Extraction

/-! ## Printed numbers -/

section Printed

variable {blank tail : Text} {c : Char} {n : ℕ}

lemma hexNumber_showHex (hblank : ∀ x ∈ blank, isSpace x = true) (hn : n < 2 ^ 64)
    (hc : isHexDigit c = false) (hx : c ≠ 'x' ∧ c ≠ 'X') :
    hexNumber (blank ++ (showHex n ++ c :: tail)) = some (UInt64.ofNat n) ∧
      afterHex (blank ++ (showHex n ++ c :: tail)) = c :: tail := by
  have hread := @getHex_spec blank c tail hblank n hn hc hx 0
  obtain ⟨y, hy, hvalue⟩ := getHex_ofText (blank ++ (showHex n ++ c :: tail)) 0
  rw [hread] at hy
  obtain ⟨hy, hstate⟩ := Prod.ext_iff.mp hy
  simp only [Istream.ofText, Istream.mk.injEq] at hy hstate
  obtain ⟨hafter, -, hsome⟩ := hstate
  refine ⟨?_, hafter.symm⟩
  cases hnum : hexNumber (blank ++ (showHex n ++ c :: tail)) with
  | none => rw [hnum] at hsome; cases hsome
  | some x => rw [hy, hvalue x hnum]

/-- With nothing behind it, the digits run up to the end. -/
lemma scanHex_showHex (hblank : ∀ x ∈ blank, isSpace x = true) (n : ℕ) : ∃ digits, digits ≠ [] ∧
    hexValue digits = n ∧ scanHex (blank ++ showHex n) = (false, digits, []) := by
  obtain ⟨d, ds, hhead, hd⟩ := exists_head_showHex n
  have hskip : (blank ++ showHex n).dropWhile isSpace = showHex n := by
    rw [hhead]
    exact dropWhile_append_cons hblank (isHexDigit_bounds hd).1
  have hsign : takeSign (showHex n) = (false, showHex n) := by
    rw [hhead]
    exact takeSign_of_isHexDigit hd
  simp only [scanHex, hskip, hsign]
  rw [showHex]
  split_ifs with h
  · exact ⟨['0'], by simp, by rw [h]; rfl, rfl⟩
  · have hall := isHexDigit_of_mem_toDigits n
    refine ⟨Nat.toDigits 16 n, Nat.toDigits_ne_nil, hexValue_toDigits n, ?_⟩
    have htake : (Nat.toDigits 16 n).takeWhile isHexDigit = Nat.toDigits 16 n := by
      rw [← List.append_nil (Nat.toDigits 16 n), List.takeWhile_append_of_pos hall]
      rfl
    have hdrop : (Nat.toDigits 16 n).dropWhile isHexDigit = [] := by
      rw [← List.append_nil (Nat.toDigits 16 n), List.dropWhile_append_of_pos hall]
      rfl
    simp [dropHexPrefix, htake, hdrop]

lemma afterHex_showHex_end (hblank : ∀ x ∈ blank, isSpace x = true) (n : ℕ) :
    afterHex (blank ++ showHex n) = [] := by
  obtain ⟨digits, -, -, hscan⟩ := scanHex_showHex hblank n
  rw [afterHex, hscan]

lemma hexNumber_showHex_end (hblank : ∀ x ∈ blank, isSpace x = true) (hn : n < 2 ^ 64) :
    hexNumber (blank ++ showHex n) = some (UInt64.ofNat n) := by
  obtain ⟨digits, hne, hvalue, hscan⟩ := scanHex_showHex hblank n
  simp only [hexNumber, hscan, hvalue]
  rw [if_neg (not_or.mpr ⟨hne, Nat.not_le.mpr hn⟩)]
  rfl

end Printed

/-! ## Reading numbers to the end of a text -/

/-- A text of numbers, one behind the other.  Up to its end there is at most one more attempt, whose
number is not in the list; before that, every attempt finds a number with something behind it. -/
inductive ReadsAddresses : Text → List UInt64 → Prop
  | last {t : Text} (h : afterHex t = []) : ReadsAddresses t []
  | next {t : Text} {a : UInt64} {as : List UInt64} (h : afterHex t ≠ [])
      (ha : hexNumber t = some a) (hrest : ReadsAddresses (afterHex t) as) :
      ReadsAddresses t (a :: as)

lemma ReadsAddresses.unique {t : Text} {as bs : List UInt64} (ha : ReadsAddresses t as)
    (hb : ReadsAddresses t bs) : as = bs := by
  induction ha generalizing bs with
  | last h =>
      cases hb with
      | last _ => rfl
      | next hne _ _ => exact absurd h hne
  | next hne ha _ ih =>
      cases hb with
      | last h => exact absurd h hne
      | next _ hb hrest =>
          rw [ha] at hb
          cases hb
          rw [ih hrest]

end PerVERT
