import Mathlib.Algebra.Group.Nat.Defs
import Mathlib.Data.List.Basic
import Mathlib.Tactic.SplitIfs

/-!
# Numbers as hexadecimal text

How a C++ stream in `hex` mode with `showbase` prints an unsigned number, and what the digits of
such a text stand for.

* `showHex n` — `0x` and the lowercase digits, and just `0` for zero.
* `hexValue` — the number a list of hexadecimal digits stands for.
* **`hexValue_toDigits`** — reading the digits printed gives the number back; hence
  **`showHex_injective`**.
-/

namespace PerVERT

/-- `std::string`. -/
abbrev Text := List Char

/-- The digits `0`–`9`, `a`–`f` and `A`–`F`. -/
def isHexDigit (c : Char) : Bool :=
  ('0' ≤ c ∧ c ≤ '9') ∨ ('a' ≤ c ∧ c ≤ 'f') ∨ ('A' ≤ c ∧ c ≤ 'F')

/-- What a digit counts. -/
def hexDigitValue (c : Char) : ℕ :=
  if c ≤ '9' then c.toNat - '0'.toNat
  else if 'a' ≤ c then c.toNat - 'a'.toNat + 10
  else c.toNat - 'A'.toNat + 10

/-- The number a list of digits stands for. -/
def hexValue (digits : Text) : ℕ :=
  digits.foldl (fun v c => 16 * v + hexDigitValue c) 0

/-- An unsigned number as a stream prints it under `hex` and `showbase`.  Zero has no base. -/
def showHex (n : ℕ) : Text :=
  if n = 0 then ['0'] else '0' :: 'x' :: Nat.toDigits 16 n

lemma hexDigitValue_digitChar : ∀ {d : ℕ}, d < 16 → hexDigitValue (Nat.digitChar d) = d := by
  decide

lemma isHexDigit_digitChar : ∀ {d : ℕ}, d < 16 → isHexDigit (Nat.digitChar d) = true := by
  decide

lemma hexValue_append (ds : Text) (c : Char) :
    hexValue (ds ++ [c]) = 16 * hexValue ds + hexDigitValue c := by
  simp [hexValue]

/-- **Reading the printed digits.** -/
theorem hexValue_toDigits (n : ℕ) : hexValue (Nat.toDigits 16 n) = n := by
  induction n using Nat.strongRecOn with
  | ind n ih =>
      rw [Nat.toDigits_eq_if (by decide)]
      split_ifs with h
      · simp [hexValue, hexDigitValue_digitChar h]
      · have hmod : n % 16 < 16 := Nat.mod_lt n (by decide)
        rw [hexValue_append, ih (n / 16) (by omega), hexDigitValue_digitChar hmod]
        omega

lemma isHexDigit_of_mem_toDigits (n : ℕ) : ∀ c ∈ Nat.toDigits 16 n, isHexDigit c = true := by
  induction n using Nat.strongRecOn with
  | ind n ih =>
      rw [Nat.toDigits_eq_if (by decide)]
      split_ifs with h
      · intro c hc
        obtain rfl : c = Nat.digitChar n := by simpa using hc
        exact isHexDigit_digitChar h
      · intro c hc
        rcases List.mem_append.mp hc with hc | hc
        · exact ih (n / 16) (by omega) c hc
        · obtain rfl : c = Nat.digitChar (n % 16) := by simpa using hc
          exact isHexDigit_digitChar (Nat.mod_lt n (by decide))

lemma mem_showHex {n : ℕ} {c : Char} (h : c ∈ showHex n) : isHexDigit c = true ∨ c = 'x' := by
  rw [showHex] at h
  split_ifs at h
  · obtain rfl : c = '0' := by simpa using h
    exact Or.inl (by decide)
  · rcases List.mem_cons.mp h with rfl | h
    · exact Or.inl (by decide)
    · rcases List.mem_cons.mp h with rfl | h
      · exact Or.inr rfl
      · exact Or.inl (isHexDigit_of_mem_toDigits n c h)

/-- **Different numbers print differently.** -/
theorem showHex_injective : Function.Injective showHex := by
  intro m n h
  simp only [showHex] at h
  split_ifs at h with hm hn hn
  · rw [hm, hn]
  · cases h
  · cases h
  · have hdigits : Nat.toDigits 16 m = Nat.toDigits 16 n := by simpa using h
    rw [← hexValue_toDigits m, ← hexValue_toDigits n, hdigits]

end PerVERT
