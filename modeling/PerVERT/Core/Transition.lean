import Mathlib.Data.List.Forall2
import Mathlib.Data.List.Induction
import Mathlib.Data.Option.Basic

/-!
# Histories and runs

A history is the list of what has happened, oldest first.  A system is a function `step` from a
state and an action to the next state; it refuses, by `none`, an action that cannot happen there.

* `EachStep P l` — `P` holds of every element of `l` together with the ones before it.
* `run step s acts` — the state after a history, when all of it can happen.
* `StepsMeet step s C acts` — every action of the history met the condition `C` when it happened.
* **`run_invariant`** — what holds at the start, and is kept by every step that meets `C`, holds
  at the end of every run whose steps all meet `C`; **`run_induction`** — where there is no `C`.
* **`run_always_iff`** — when a step that does not meet `C` breaks it at once, it holds all along
  only in those runs.

All inductions are at the end of the history.
-/

namespace PerVERT

/-! ## Histories -/

section History

variable {α : Type*} {P : List α → α → Prop} {l : List α} {a : α}

lemma getElem?_snoc {k : ℕ} {b : α} :
    (l ++ [a])[k]? = some b ↔ l[k]? = some b ∨ (k = l.length ∧ b = a) := by
  rcases Nat.lt_trichotomy k l.length with h | rfl | h
  · rw [List.getElem?_append_left h]
    exact ⟨Or.inl, fun hor => hor.resolve_right fun hk => Nat.ne_of_lt h hk.1⟩
  · simp [eq_comm]
  · rw [List.getElem?_eq_none (by simp; omega), List.getElem?_eq_none (Nat.le_of_lt h)]
    simp [Nat.ne_of_gt h]

lemma lt_of_getElem? {k : ℕ} {b : α} (h : l[k]? = some b) : k < l.length :=
  (List.getElem?_eq_some_iff.mp h).1

lemma forall₂_snoc_left {β : Type*} {R : α → β → Prop} {m : List β} :
    List.Forall₂ R (l ++ [a]) m ↔ ∃ m' b, m = m' ++ [b] ∧ List.Forall₂ R l m' ∧ R a b := by
  rw [← List.forall₂_reverse_iff, List.reverse_append, List.reverse_singleton,
    List.singleton_append, List.forall₂_cons_left_iff]
  constructor
  · rintro ⟨b, m', hab, h, heq⟩
    refine ⟨m'.reverse, b, ?_, ?_, hab⟩
    · rw [← List.reverse_cons, ← heq, List.reverse_reverse]
    · rw [← List.forall₂_reverse_iff, List.reverse_reverse]
      exact h
  · rintro ⟨m', b, rfl, h, hab⟩
    exact ⟨b, m'.reverse, hab, List.forall₂_reverse_iff.mpr h, by simp⟩

/-- Every element, with the ones before it, satisfies `P`. -/
def EachStep (P : List α → α → Prop) (l : List α) : Prop :=
  ∀ k a, l[k]? = some a → P (l.take k) a

instance [∀ l a, Decidable (P l a)] : Decidable (EachStep P l) :=
  decidable_of_iff (∀ k : Fin l.length, P (l.take k) l[k]) (by
    refine ⟨fun h k a hk => ?_, fun h k => h k l[k] (by simp)⟩
    obtain ⟨hlt, rfl⟩ := List.getElem?_eq_some_iff.mp hk
    exact h ⟨k, hlt⟩)

lemma EachStep.nil : EachStep P [] := by simp [EachStep]

lemma eachStep_append : EachStep P (l ++ [a]) ↔ EachStep P l ∧ P l a := by
  constructor
  · intro h
    refine ⟨fun k b hk => ?_, ?_⟩
    · have hb := h k b (getElem?_snoc.mpr (Or.inl hk))
      rwa [List.take_append_of_le_length (Nat.le_of_lt (lt_of_getElem? hk))] at hb
    · simpa using h l.length a (getElem?_snoc.mpr (Or.inr ⟨rfl, rfl⟩))
  · rintro ⟨h, ha⟩ k b hk
    rcases getElem?_snoc.mp hk with hk | ⟨rfl, rfl⟩
    · rw [List.take_append_of_le_length (Nat.le_of_lt (lt_of_getElem? hk))]
      exact h k b hk
    · rwa [List.take_left]

lemma EachStep.take (h : EachStep P l) (n : ℕ) : EachStep P (l.take n) := by
  intro k b hk
  rw [List.getElem?_take] at hk
  split_ifs at hk with hlt
  rw [List.take_take, Nat.min_eq_left (Nat.le_of_lt hlt)]
  exact h k b hk

end History

/-! ## Runs -/

section Run

variable {σ α : Type*} {step : σ → α → Option σ} {s₀ s : σ} {acts : List α} {a : α}

/-- The state after a history. -/
def run (step : σ → α → Option σ) (s₀ : σ) (acts : List α) : Option σ :=
  acts.foldlM step s₀

lemma run_append_singleton :
    run step s₀ (acts ++ [a]) = (run step s₀ acts).bind fun s => step s a := by
  simp [run, List.foldlM_append]

lemma run_append {acts' : List α} :
    run step s₀ (acts ++ acts') = (run step s₀ acts).bind fun s => run step s acts' := by
  simp [run, List.foldlM_append]

lemma run_cons : run step s₀ (a :: acts) = (step s₀ a).bind fun s => run step s acts := by
  simp [run]

/-- A history that can happen is one that could happen up to its last action. -/
lemma run_append_eq_some {s' : σ} : run step s₀ (acts ++ [a]) = some s' ↔
    ∃ s, run step s₀ acts = some s ∧ step s a = some s' := by
  rw [run_append_singleton, Option.bind_eq_some_iff]

/-- Every action met the condition, which may look at the history and the state before it. -/
def StepsMeet (step : σ → α → Option σ) (s₀ : σ) (C : List α → σ → α → Prop) (acts : List α) :
    Prop :=
  EachStep (fun before a => ∀ s, run step s₀ before = some s → C before s a) acts

instance {C : List α → σ → α → Prop} [∀ before s a, Decidable (C before s a)] :
    Decidable (StepsMeet step s₀ C acts) :=
  have : ∀ before a, Decidable (∀ s, run step s₀ before = some s → C before s a) :=
    fun before a => inferInstanceAs (Decidable (∀ s ∈ run step s₀ before, C before s a))
  inferInstanceAs (Decidable (EachStep _ acts))

lemma StepsMeet.nil {C : List α → σ → α → Prop} : StepsMeet step s₀ C [] :=
  EachStep.nil

/-- One more action, after a history that can happen. -/
lemma stepsMeet_append {C : List α → σ → α → Prop} (hrun : run step s₀ acts = some s) :
    StepsMeet step s₀ C (acts ++ [a]) ↔ StepsMeet step s₀ C acts ∧ C acts s a := by
  rw [StepsMeet, eachStep_append]
  refine and_congr_right fun _ => ⟨fun h => h s hrun, fun h s' hs' => ?_⟩
  cases Option.some.inj (hrun.symm.trans hs')
  exact h

/-- **The invariant rule.** -/
theorem run_invariant {C : List α → σ → α → Prop} {I : List α → σ → Prop} (hinit : I [] s₀)
    (hstep : ∀ {acts s a s'}, run step s₀ acts = some s → I acts s → C acts s a →
      step s a = some s' → I (acts ++ [a]) s') :
    ∀ {acts s}, StepsMeet step s₀ C acts → run step s₀ acts = some s → I acts s := by
  intro acts
  induction acts using List.reverseRecOn with
  | nil =>
      intro s _ h
      cases Option.some.inj h
      exact hinit
  | append_singleton acts a ih =>
      intro s' hmeet h
      obtain ⟨s, hs, hstep'⟩ := run_append_eq_some.mp h
      obtain ⟨hmeet, ha⟩ := (stepsMeet_append hs).mp hmeet
      exact hstep hs (ih hmeet hs) ha hstep'

/-- **The invariant rule** without a condition: the induction over a run. -/
theorem run_induction {I : List α → σ → Prop} (hinit : I [] s₀)
    (hstep : ∀ {acts s a s'}, run step s₀ acts = some s → I acts s → step s a = some s' →
      I (acts ++ [a]) s') {acts : List α} {s : σ} (hrun : run step s₀ acts = some s) : I acts s :=
  @run_invariant _ _ step s₀ (fun _ _ _ => True) I hinit (fun hrun hi _ hs => hstep hrun hi hs) _ _
    (fun _ _ _ _ _ => trivial) hrun

/-- What is met in a history is met up to any point of it. -/
lemma StepsMeet.take {C : List α → σ → α → Prop} (h : StepsMeet step s₀ C acts) (n : ℕ) :
    StepsMeet step s₀ C (acts.take n) :=
  EachStep.take h n

/-- **The exact rule.**  `I` is the invariant behind `Q`. -/
theorem run_always_iff {C : σ → α → Prop} {I Q : σ → Prop} (hinit : I s₀) (hI : ∀ {s}, I s → Q s)
    (hstep : ∀ {s a s'}, I s → C s a → step s a = some s' → I s')
    (hbreak : ∀ {s a s'}, I s → ¬ C s a → step s a = some s' → ¬ Q s') :
    ∀ {acts s}, run step s₀ acts = some s →
      ((∀ n s', run step s₀ (acts.take n) = some s' → Q s') ↔
        StepsMeet step s₀ (fun _ => C) acts) := by
  have hinv : ∀ {acts s}, StepsMeet step s₀ (fun _ => C) acts → run step s₀ acts = some s → I s :=
    fun hmeet hs => @run_invariant _ _ step s₀ _ (fun _ s => I s) hinit
      (fun _ hi hc h => hstep hi hc h) _ _ hmeet hs
  intro acts s hrun
  constructor
  · -- by induction at the end: the run before the last step satisfies the invariant
    induction acts using List.reverseRecOn generalizing s with
    | nil => exact fun _ => StepsMeet.nil
    | append_singleton acts a ih =>
        intro halways
        obtain ⟨s₁, hs₁, ha⟩ := run_append_eq_some.mp hrun
        have hmeet : StepsMeet step s₀ (fun _ => C) acts := by
          refine ih hs₁ fun n s' hs' => ?_
          rcases Nat.le_total n acts.length with hn | hn
          · refine halways n s' ?_
            rw [List.take_append_of_le_length hn]
            exact hs'
          · refine halways acts.length s' ?_
            rw [List.take_left]
            rwa [List.take_of_length_le hn] at hs'
        refine (stepsMeet_append hs₁).mpr ⟨hmeet, ?_⟩
        by_contra hc
        refine hbreak (hinv hmeet hs₁) hc ha (halways (acts.length + 1) s ?_)
        rw [List.take_of_length_le (by simp)]
        exact hrun
  · exact fun hmeet n s' hs' => hI (hinv (hmeet.take n) hs')

end Run

end PerVERT
