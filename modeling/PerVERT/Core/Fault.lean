import Mathlib.Algebra.Group.Int.Defs
import Mathlib.Algebra.Group.Nat.Defs
import Mathlib.Data.List.Forall2
import Mathlib.Tactic.SplitIfs

/-!
# Computations that may stop

A C++ function can end other than by returning: an `assert` aborts, and some operations have no
defined result at all.  `Checked α` is a computation that returns an `α` or stops at the first
such point, and `Fault` says which one it was.

`int` arithmetic is `ℤ` with a check: signed overflow is undefined, so `intAdd` stops there.
-/

namespace PerVERT

/-- Why a computation stopped. -/
inductive Fault
  /-- `assert(cond && msg)` failed. -/
  | assertion (msg : String)
  /-- A signed `int` operation overflowed. -/
  | signedOverflow
  /-- `*c.begin()` or `c.back()` on an empty container. -/
  | emptyContainer
  /-- A pointer or index outside the object it points into. -/
  | outOfRange
  /-- Division or remainder by zero. -/
  | divisionByZero
  /-- The computation is still running after the number of rounds it was given. -/
  | outOfFuel
  deriving DecidableEq, Repr

/-- A computation that returns or stops at a fault. -/
abbrev Checked (α : Type) := Except Fault α

/-- `assert(cond && msg)`. -/
def assertC (cond : Bool) (msg : String) : Checked Unit :=
  if cond then .ok () else .error (.assertion msg)

lemma assertC_eq_ok {cond : Bool} {msg : String} : assertC cond msg = .ok () ↔ cond = true := by
  cases cond <;> simp [assertC]

/-- A computation that has returned goes on. -/
lemma checked_ok_bind {α β : Type} (a : α) (f : α → Checked β) :
    ((.ok a : Checked α) >>= f) = f a := rfl

/-- Sequencing returns exactly when both parts return. -/
lemma checked_bind_eq_ok {α β : Type} {x : Checked α} {f : α → Checked β} {b : β} :
    (x >>= f) = .ok b ↔ ∃ a, x = .ok a ∧ f a = .ok b := by
  cases x with
  | error e => simp [Bind.bind, Except.bind]
  | ok a => simp [Bind.bind, Except.bind]

/-- Sequencing stops where one of the parts does. -/
lemma checked_bind_eq_error {α β : Type} {x : Checked α} {f : α → Checked β} {e : Fault} :
    (x >>= f) = .error e ↔ x = .error e ∨ ∃ a, x = .ok a ∧ f a = .error e := by
  cases x with
  | error e' => simp [Bind.bind, Except.bind]
  | ok a => simp [Bind.bind, Except.bind]

/-- Mapping a checked function over a list returns the pointwise results. -/
lemma checked_mapM_eq_ok {α β : Type} {f : α → Checked β} : ∀ {l : List α} {r : List β},
    l.mapM f = .ok r ↔ List.Forall₂ (fun a b => f a = .ok b) l r
  | [], r => by
      cases r <;> simp [Pure.pure, Except.pure]
  | a :: l, r => by
      rw [List.mapM_cons]
      simp only [checked_bind_eq_ok, checked_mapM_eq_ok (l := l), Pure.pure, Except.pure,
        Except.ok.injEq]
      constructor
      · rintro ⟨b, hb, bs, hbs, rfl⟩
        exact List.Forall₂.cons hb hbs
      · rintro (_ | ⟨hb, hbs⟩)
        exact ⟨_, hb, _, hbs, rfl⟩

/-- Mapping a checked function over a list returns just if it does on each element. -/
lemma checked_forall₂_returns_iff {α β : Type} {f : α → Checked β} {l : List α} :
    (∃ r, List.Forall₂ (fun a b => f a = .ok b) l r) ↔ ∀ a ∈ l, ∃ b, f a = .ok b := by
  induction l with
  | nil => exact ⟨fun _ => by simp, fun _ => ⟨[], List.Forall₂.nil⟩⟩
  | cons a l ih =>
      rw [List.forall_mem_cons, ← ih]
      constructor
      · rintro ⟨r, h⟩
        obtain ⟨b, r, hb, hr, rfl⟩ := List.forall₂_cons_left_iff.mp h
        exact ⟨⟨b, hb⟩, r, hr⟩
      · rintro ⟨⟨b, hb⟩, r, hr⟩
        exact ⟨b :: r, List.Forall₂.cons hb hr⟩

/-- A test of a result that is passed: there is a result. -/
lemma exists_of_any {α : Type} {r : Checked α} {p : α → Bool} (h : r.toOption.any p = true) :
    ∃ a, r = .ok a ∧ p a = true := by
  cases r with
  | error f => cases h
  | ok a => exact ⟨a, rfl, h⟩

/-- `v[i]` on a vector, for an `int` index: a negative one converts to a huge `size_t`. -/
def vectorAt {α : Type} (v : List α) (i : ℤ) : Checked α :=
  match if 0 ≤ i then v[i.toNat]? else none with
  | some x => .ok x
  | none => .error .outOfRange

lemma vectorAt_of_getElem? {α : Type} {v : List α} {n : ℕ} {x : α} (h : v[n]? = some x) :
    vectorAt v n = .ok x := by
  simp [vectorAt, h]

lemma vectorAt_eq_ok {α : Type} {v : List α} {i : ℤ} {x : α} :
    vectorAt v i = .ok x ↔ 0 ≤ i ∧ v[i.toNat]? = some x := by
  rw [vectorAt]
  split_ifs with h0
  · cases hget : v[i.toNat]? <;> simp [h0]
  · simp [h0]

/-! ## `int` -/

/-- The values of a 32-bit `int`. -/
def InInt (n : ℤ) : Prop := -2 ^ 31 ≤ n ∧ n < 2 ^ 31

instance (n : ℤ) : Decidable (InInt n) := inferInstanceAs (Decidable (_ ∧ _))

/-- `a + b` on `int`. -/
def intAdd (a b : ℤ) : Checked ℤ :=
  if InInt (a + b) then .ok (a + b) else .error .signedOverflow

lemma intAdd_eq_ok {a b c : ℤ} : intAdd a b = .ok c ↔ InInt (a + b) ∧ c = a + b := by
  rw [intAdd]
  split_ifs with h <;> simp [h, eq_comm]

/-- `a * b` on `int`. -/
def intMul (a b : ℤ) : Checked ℤ :=
  if InInt (a * b) then .ok (a * b) else .error .signedOverflow

lemma intMul_eq_ok {a b c : ℤ} : intMul a b = .ok c ↔ InInt (a * b) ∧ c = a * b := by
  rw [intMul]
  split_ifs with h <;> simp [h, eq_comm]

/-- `abs(a)` on `int`: there is no `-INT_MIN`. -/
def intAbs (a : ℤ) : Checked ℤ :=
  if InInt a.natAbs then .ok a.natAbs else .error .signedOverflow

/-- The conversion `(int) x` of an integer `x`: the value of its low 32 bits. -/
def toInt (x : ℤ) : ℤ := (x + 2 ^ 31) % 2 ^ 32 - 2 ^ 31

lemma toInt_of_inInt {x : ℤ} (h : InInt x) : toInt x = x := by
  rw [InInt] at h
  rw [toInt]
  omega

/-- The conversion `(unsigned int) x` of an integer `x`. -/
def toUnsigned (x : ℤ) : ℕ := (x % 2 ^ 32).toNat

end PerVERT
