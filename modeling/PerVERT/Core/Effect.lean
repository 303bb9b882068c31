import PerVERT.Core.Fault

/-!
# Programs that keep state

`Program σ α` reads and writes a state `σ`.  It returns an `α` or stops at a fault, and there is a
state in both cases: what a process has done before it aborts is done.

* `wp` — the weakest precondition of a program, for a postcondition and a condition on the states
  it stops in; one simp rule for each way to build a program.
* `Triple` — the same between two conditions on states; **`Triple.bind`** sequences two, and
  `Triple.run` is what one says of a run.
-/

namespace PerVERT

/-- A program on states `σ`. -/
def Program (σ α : Type) : Type := σ → Except Fault α × σ

instance (σ : Type) : Monad (Program σ) where
  pure a := fun s => (.ok a, s)
  bind x f := fun s =>
    match x s with
    | (.ok a, s') => f a s'
    | (.error e, s') => (.error e, s')

section Build

variable {σ α : Type}

/-- The state. -/
def Program.get : Program σ σ := fun s => (.ok s, s)

/-- A change of the state. -/
def Program.modify (f : σ → σ) : Program σ Unit := fun s => (.ok (), f s)

/-- A computation that has nothing to do with the state. -/
def Program.check (x : Checked α) : Program σ α := fun s => (x, s)

end Build

/-! ## Weakest preconditions -/

section Rules

variable {σ α β : Type} {Q Q' : α → σ → Prop} {E E' : Fault → σ → Prop} {s : σ}

/-- From this state the program returns in `Q` or stops in `E`. -/
def wp (x : Program σ α) (Q : α → σ → Prop) (E : Fault → σ → Prop) (s : σ) : Prop :=
  match x s with
  | (.ok a, s') => Q a s'
  | (.error e, s') => E e s'

@[simp] lemma wp_pure {a : α} : wp (pure a) Q E s ↔ Q a s := Iff.rfl

@[simp] lemma wp_get {Q : σ → σ → Prop} : wp Program.get Q E s ↔ Q s s := Iff.rfl

@[simp] lemma wp_modify {Q : Unit → σ → Prop} {f : σ → σ} :
    wp (Program.modify f) Q E s ↔ Q () (f s) := Iff.rfl

lemma wp_check {x : Checked α} :
    wp (Program.check x) Q E s ↔ (∀ a, x = .ok a → Q a s) ∧ ∀ e, x = .error e → E e s := by
  cases x with
  | ok a => simp [wp, Program.check]
  | error e => simp [wp, Program.check]

@[simp] lemma wp_check_ok {a : α} : wp (Program.check (.ok a)) Q E s ↔ Q a s := Iff.rfl

@[simp] lemma wp_check_error {e : Fault} : wp (Program.check (.error e)) Q E s ↔ E e s := Iff.rfl

/-- **Sequencing.** -/
@[simp] lemma wp_bind {x : Program σ α} {f : α → Program σ β} {Q : β → σ → Prop} :
    wp (x >>= f) Q E s ↔ wp x (fun a => wp (f a) Q E) E s := by
  simp only [wp, Bind.bind]
  cases x s with
  | mk r s' =>
      cases r with
      | ok a => exact Iff.rfl
      | error e => exact Iff.rfl

/-- What comes after a checked value depends on that value only. -/
lemma check_bind_congr {x : Checked α} {f g : α → Program σ β} (h : ∀ a, x = .ok a → f a = g a) :
    Program.check x >>= f = Program.check x >>= g := by
  cases x with
  | ok a =>
      funext s
      exact congrFun (h a rfl) s
  | error e => rfl

lemma wp_mono {x : Program σ α} (h : wp x Q E s) (hQ : ∀ a s, Q a s → Q' a s)
    (hE : ∀ e s, E e s → E' e s) : wp x Q' E' s := by
  simp only [wp] at h ⊢
  cases hrun : x s with
  | mk r s' =>
      rw [hrun] at h
      cases r with
      | ok a => exact hQ a s' h
      | error e => exact hE e s' h

/-! ## Triples -/

/-- From every state in `P` the program returns in `Q` or stops in `E`. -/
def Triple (P : σ → Prop) (x : Program σ α) (Q : α → σ → Prop) (E : Fault → σ → Prop) : Prop :=
  ∀ s, P s → wp x Q E s

variable {P : σ → Prop} {x : Program σ α}

/-- **Sequencing of triples.** -/
theorem Triple.bind {f : α → Program σ β} {R : β → σ → Prop} (hx : Triple P x Q E)
    (hf : ∀ a, Triple (Q a) (f a) R E) : Triple P (x >>= f) R E := by
  intro s hs
  rw [wp_bind]
  exact wp_mono (hx s hs) (fun a s' h => hf a s' h) fun _ _ h => h

/-- What a triple says of one run. -/
lemma Triple.run (h : Triple P x Q E) (hs : P s) :
    (∀ a s', x s = (.ok a, s') → Q a s') ∧ ∀ e s', x s = (.error e, s') → E e s' := by
  have hwp := h s hs
  rw [wp] at hwp
  refine ⟨fun a s' hrun => ?_, fun e s' hrun => ?_⟩
  · rw [hrun] at hwp
    exact hwp
  · rw [hrun] at hwp
    exact hwp

end Rules

end PerVERT
