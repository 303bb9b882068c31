import PerVERT.Core.HexText

/-!
# Input streams

A `std::istream` over a text, in the "C" locale: the characters not read yet and the two state
bits `eofbit` and `failbit`.  Each extraction is a function of the stream and of the variable it
reads into, because a failed one may leave the variable alone.

* `Istream.getChar` is `in >> c` for a `char`, `Istream.getHex` is `in >> hex >> x` for a
  `uint64_t`, `Istream.getDec` is `in >> x` for an `unsigned int`, `Istream.getWord` is `in >> s`
  for a `string`, and `Istream.getline` is `getline(in, line)`.
* **`getHex_spec`**, **`getDec_spec`**, **`getWord_spec`**, **`getline_spec`** — what each reads
  from a stream that is good and continues as expected.  A program that reads back what another
  wrote is verified by these rules, one extraction after the other.
-/

namespace PerVERT

/-- A stream: what is left to read, and the state bits. -/
structure Istream where
  rest : Text
  eof : Bool
  fail : Bool
  deriving DecidableEq, Repr

/-- A stream just opened on a text. -/
def Istream.ofText (text : Text) : Istream := ⟨text, false, false⟩

/-- `isspace`. -/
def isSpace (c : Char) : Bool :=
  c = ' ' ∨ c = '\t' ∨ c = '\n' ∨ c = '\x0b' ∨ c = '\x0c' ∨ c = '\r'

/-- The sentry of a formatted extraction: white space is skipped, and a stream that is not good
or has nothing else left fails.  The `Bool` tells whether to go on. -/
def Istream.sentry (s : Istream) : Bool × Istream :=
  if s.eof || s.fail then (false, { s with fail := true })
  else
    match s.rest.dropWhile isSpace with
    | [] => (false, ⟨[], true, true⟩)
    | c :: rest => (true, ⟨c :: rest, false, false⟩)

/-- `in >> c`. -/
def Istream.getChar (s : Istream) (old : Char) : Char × Istream :=
  match s.sentry with
  | (true, ⟨c :: rest, eof, fail⟩) => (c, ⟨rest, eof, fail⟩)
  | (_, s) => (old, s)

/-- The sign of a number: whether it is `-`, and what follows. -/
def takeSign : Text → Bool × Text
  | '-' :: cs => (true, cs)
  | '+' :: cs => (false, cs)
  | cs => (false, cs)

/-- The base prefix of a hexadecimal number is optional. -/
def dropHexPrefix : Text → Text
  | '0' :: 'x' :: cs => cs
  | '0' :: 'X' :: cs => cs
  | cs => cs

/-- `in >> hex >> x` for a `uint64_t x`.  Without digits `x` becomes zero, with too many the
greatest value; in both cases the stream fails.  It sees the end when the digits run up to it. -/
def Istream.getHex (s : Istream) (old : UInt64) : UInt64 × Istream :=
  match s.sentry with
  | (false, s) => (old, s)
  | (true, s) =>
      let (negative, cs) := takeSign s.rest
      let cs := dropHexPrefix cs
      let digits := cs.takeWhile isHexDigit
      let rest := cs.dropWhile isHexDigit
      if digits = [] then (0, ⟨rest, rest.isEmpty, true⟩)
      else if 2 ^ 64 ≤ hexValue digits then (-1, ⟨rest, rest.isEmpty, true⟩)
      else
        let x := UInt64.ofNat (hexValue digits)
        (if negative then -x else x, ⟨rest, rest.isEmpty, false⟩)

/-- `in >> x` for an `unsigned int x`, in base ten.  It fails as `getHex` does. -/
def Istream.getDec (s : Istream) (old : UInt32) : UInt32 × Istream :=
  match s.sentry with
  | (false, s) => (old, s)
  | (true, s) =>
      let (negative, cs) := takeSign s.rest
      let digits := cs.takeWhile Char.isDigit
      let rest := cs.dropWhile Char.isDigit
      if digits = [] then (0, ⟨rest, rest.isEmpty, true⟩)
      else if 2 ^ 32 ≤ Nat.ofDigitChars 10 digits 0 then (-1, ⟨rest, rest.isEmpty, true⟩)
      else
        let x := UInt32.ofNat (Nat.ofDigitChars 10 digits 0)
        (if negative then -x else x, ⟨rest, rest.isEmpty, false⟩)

/-- `in >> s` for a `string`: up to the next white space. -/
def Istream.getWord (s : Istream) (old : Text) : Text × Istream :=
  match s.sentry with
  | (false, s) => (old, s)
  | (true, s) =>
      let rest := s.rest.dropWhile fun c => !isSpace c
      (s.rest.takeWhile fun c => !isSpace c, ⟨rest, rest.isEmpty, false⟩)

/-- `getline(in, line)`: up to the next newline, which is dropped, or to the end. -/
def Istream.getline (s : Istream) (old : Text) : Text × Istream :=
  if s.eof || s.fail then (old, { s with fail := true })
  else
    let line := s.rest.takeWhile (· ≠ '\n')
    match s.rest.dropWhile (· ≠ '\n') with
    | _ :: rest => (line, ⟨rest, false, false⟩)
    | [] => (line, ⟨[], true, line.isEmpty⟩)

/-! ## Splitting at a known place -/

section Split

variable {α : Type} {p : α → Bool}

lemma takeWhile_append_cons {xs ys : List α} {y : α} (h : ∀ x ∈ xs, p x = true)
    (hy : p y = false) : (xs ++ y :: ys).takeWhile p = xs := by
  simp [List.takeWhile_append_of_pos h, hy]

lemma dropWhile_append_cons {xs ys : List α} {y : α} (h : ∀ x ∈ xs, p x = true)
    (hy : p y = false) : (xs ++ y :: ys).dropWhile p = y :: ys := by
  simp [List.dropWhile_append_of_pos h, hy]

end Split

/-! ## What the extractions read -/

section Rules

variable {blank : Text} {c : Char} {tail : Text}

/-- White space before a character is skipped. -/
lemma sentry_spec (hblank : ∀ x ∈ blank, isSpace x = true) (hc : isSpace c = false) :
    (Istream.ofText (blank ++ c :: tail)).sentry = (true, Istream.ofText (c :: tail)) := by
  simp only [Istream.sentry, Istream.ofText, Bool.or_self, Bool.false_eq_true, if_false,
    dropWhile_append_cons hblank hc]

lemma isHexDigit_bounds (h : isHexDigit c = true) : isSpace c = false ∧ c ≠ '-' ∧ c ≠ '+' := by
  refine ⟨?_, ?_, ?_⟩
  · by_contra hs
    simp only [isSpace, Bool.not_eq_false, decide_eq_true_eq] at hs
    rcases hs with rfl | rfl | rfl | rfl | rfl | rfl <;> revert h <;> decide
  · rintro rfl; revert h; decide
  · rintro rfl; revert h; decide

lemma takeSign_of_ne (hminus : c ≠ '-') (hplus : c ≠ '+') :
    takeSign (c :: tail) = (false, c :: tail) := by
  unfold takeSign
  split
  · next heq => exact absurd (List.cons.inj heq).1 hminus
  · next heq => exact absurd (List.cons.inj heq).1 hplus
  · rfl

lemma takeSign_of_isHexDigit (h : isHexDigit c = true) :
    takeSign (c :: tail) = (false, c :: tail) :=
  takeSign_of_ne (isHexDigit_bounds h).2.1 (isHexDigit_bounds h).2.2

/-- What is left of a printed number once its base is dropped: its digits. -/
lemma exists_digits_showHex (n : ℕ) (hx : c ≠ 'x' ∧ c ≠ 'X') :
    ∃ digits, digits ≠ [] ∧ (∀ d ∈ digits, isHexDigit d = true) ∧ hexValue digits = n ∧
      dropHexPrefix (showHex n ++ c :: tail) = digits ++ c :: tail := by
  rw [showHex]
  split_ifs with h
  · refine ⟨['0'], by simp, List.forall_mem_singleton.mpr (by decide),
      by simp [h, hexValue, hexDigitValue], ?_⟩
    show dropHexPrefix ('0' :: c :: tail) = '0' :: c :: tail
    unfold dropHexPrefix
    split
    · next heq => exact absurd (List.cons.inj (List.cons.inj heq).2).1 hx.1
    · next heq => exact absurd (List.cons.inj (List.cons.inj heq).2).1 hx.2
    · rfl
  · exact ⟨_, by simp, isHexDigit_of_mem_toDigits n, hexValue_toDigits n, rfl⟩

/-- A printed number begins with `0` or a digit in any case. -/
lemma exists_head_showHex (n : ℕ) : ∃ d ds, showHex n = d :: ds ∧ isHexDigit d = true := by
  rw [showHex]
  split_ifs
  · exact ⟨_, _, rfl, by decide⟩
  · exact ⟨_, _, rfl, by decide⟩

/-- **Reading a number.**  A number printed under `hex` and `showbase` is read back, when what
follows cannot be taken for a part of it. -/
theorem getHex_spec (hblank : ∀ x ∈ blank, isSpace x = true) {n : ℕ} (hn : n < 2 ^ 64)
    (hc : isHexDigit c = false) (hx : c ≠ 'x' ∧ c ≠ 'X') (old : UInt64) :
    (Istream.ofText (blank ++ (showHex n ++ c :: tail))).getHex old
      = (UInt64.ofNat n, Istream.ofText (c :: tail)) := by
  obtain ⟨digits, hne, hdigits, hvalue, hprefix⟩ := @exists_digits_showHex c tail n hx
  obtain ⟨d, ds, hhead, hd⟩ := exists_head_showHex n
  rw [hhead, List.cons_append] at hprefix ⊢
  rw [Istream.getHex, sentry_spec hblank (isHexDigit_bounds hd).1]
  simp only [Istream.ofText, takeSign_of_isHexDigit hd, hprefix,
    takeWhile_append_cons hdigits hc, dropWhile_append_cons hdigits hc, if_neg hne, hvalue,
    if_neg (Nat.not_le.mpr hn), Bool.false_eq_true, if_false, List.isEmpty_cons]

/-- An unsigned number as a stream prints it by default. -/
def showDec (n : ℕ) : Text := Nat.toDigits 10 n

lemma exists_head_showDec (n : ℕ) :
    ∃ d ds, showDec n = d :: ds ∧ isSpace d = false ∧ d ≠ '-' ∧ d ≠ '+' := by
  cases hshow : showDec n with
  | nil => exact absurd hshow Nat.toDigits_ne_nil
  | cons d ds =>
      have hd : d.isDigit = true :=
        Nat.isDigit_of_mem_toDigits (by decide) (by decide) (hshow ▸ List.mem_cons_self)
      refine ⟨d, ds, rfl, ?_, ?_, ?_⟩
      · by_contra hs
        simp only [isSpace, Bool.not_eq_false, decide_eq_true_eq] at hs
        rcases hs with rfl | rfl | rfl | rfl | rfl | rfl <;> revert hd <;> decide
      · rintro rfl; revert hd; decide
      · rintro rfl; revert hd; decide

/-- **Reading a number in base ten.** -/
theorem getDec_spec (hblank : ∀ x ∈ blank, isSpace x = true) {n : ℕ} (hn : n < 2 ^ 32)
    (hc : c.isDigit = false) (old : UInt32) :
    (Istream.ofText (blank ++ (showDec n ++ c :: tail))).getDec old
      = (UInt32.ofNat n, Istream.ofText (c :: tail)) := by
  obtain ⟨d, ds, hhead, hspace, hminus, hplus⟩ := exists_head_showDec n
  have hdigits : ∀ x ∈ showDec n, x.isDigit = true :=
    fun x hx => Nat.isDigit_of_mem_toDigits (by decide) (by decide) hx
  have hvalue : Nat.ofDigitChars 10 (showDec n) 0 = n :=
    Nat.ofDigitChars_toDigits (by decide) (by decide)
  have hsign : takeSign (showDec n ++ c :: tail) = (false, showDec n ++ c :: tail) := by
    rw [hhead, List.cons_append]
    exact takeSign_of_ne hminus hplus
  have hsentry : (Istream.ofText (blank ++ (showDec n ++ c :: tail))).sentry
      = (true, Istream.ofText (showDec n ++ c :: tail)) := by
    rw [hhead, List.cons_append]
    exact sentry_spec hblank hspace
  have hne : showDec n ≠ [] := Nat.toDigits_ne_nil
  rw [Istream.getDec, hsentry]
  simp only [Istream.ofText, hsign, takeWhile_append_cons hdigits hc,
    dropWhile_append_cons hdigits hc, if_neg hne, hvalue, if_neg (Nat.not_le.mpr hn),
    Bool.false_eq_true, if_false, List.isEmpty_cons]

/-- **Reading a word.** -/
theorem getWord_spec {word : Text} (hne : word ≠ []) (hword : ∀ x ∈ word, isSpace x = false)
    (hc : isSpace c = true) (old : Text) :
    (Istream.ofText (word ++ c :: tail)).getWord old = (word, Istream.ofText (c :: tail)) := by
  have hsentry : (Istream.ofText (word ++ c :: tail)).sentry
      = (true, Istream.ofText (word ++ c :: tail)) := by
    cases word with
    | nil => exact absurd rfl hne
    | cons w ws => exact @sentry_spec [] w (ws ++ c :: tail) (by simp) (hword w (by simp))
  have hall : ∀ x ∈ word, (!isSpace x) = true := fun x hx => by rw [hword x hx]; rfl
  have hstop : (!isSpace c) = false := by rw [hc]; rfl
  rw [Istream.getWord, hsentry]
  simp only [Istream.ofText, takeWhile_append_cons hall hstop, dropWhile_append_cons hall hstop,
    List.isEmpty_cons]

/-- **Reading a line.** -/
theorem getline_spec {line : Text} (h : '\n' ∉ line) (old : Text) :
    (Istream.ofText (line ++ '\n' :: tail)).getline old = (line, Istream.ofText tail) := by
  have hline : ∀ x ∈ line, (decide (x ≠ '\n')) = true := by
    intro x hx
    simp only [decide_eq_true_eq]
    rintro rfl
    exact h hx
  have hstop : (decide ('\n' ≠ '\n')) = false := by decide
  simp only [Istream.getline, Istream.ofText, Bool.or_self, Bool.false_eq_true, if_false,
    takeWhile_append_cons hline hstop, dropWhile_append_cons hline hstop]

end Rules

end PerVERT
