import PerVERT.Core.Transition
import PerVERT.Pintool.CallStack

/-!
# The order of the activations

`AdjustStack` looks at the newest activation only.  That it drops the frames left, all of them and
no other, rests on an order that nothing in the class states: each activation has a lower stack
pointer than the ones before it.  Every callback keeps it, whatever the stack pointers are, since
it adjusts the stack before it pushes.

* `FramesInOrder sym st` — the order, what `AdjustStack` then leaves, and that no callback asserts
  or reads an empty vector.
* `IndicesRight as` — `vector_index` is the index into the activations.
* **`callStack_inOrder_iff`** — the first holds in every run; the second just while fewer than
  `2 ^ 31` activations are in place below a new one, for the field is an `int`.
-/

namespace PerVERT

/-- Strictly decreasing stack pointers from the oldest to the newest; the newest comes first. -/
def Descending (as : List Activation) : Prop :=
  as.Pairwise fun newer older => newer.currentSp < older.currentSp

/-- The frames above the stack pointer. -/
def framesAbove (sp : UInt64) (as : List Activation) : List Activation :=
  as.filter fun a => sp < a.currentSp

/-- `vector_index` is the index into the activations, counted from the oldest. -/
def IndicesRight (as : List Activation) : Prop :=
  ∀ (i : ℕ) (a : Activation), as.reverse[i]? = some a → a.vectorIndex = i

section Order

variable {as : List Activation} {a : Activation} {sp : UInt64}

lemma descending_cons : Descending (a :: as) ↔
    (∀ b ∈ as, a.currentSp < b.currentSp) ∧ Descending as :=
  List.pairwise_cons

lemma framesAbove_eq_self (h : ∀ b ∈ as, sp < b.currentSp) : framesAbove sp as = as :=
  List.filter_eq_self.mpr fun b hb => decide_eq_true (h b hb)

/-- In order, the frames left are all on top. -/
lemma dropWhile_left_eq (h : Descending as) :
    as.dropWhile (Activation.left sp) = framesAbove sp as := by
  induction as with
  | nil => rfl
  | cons a as ih =>
      obtain ⟨hlt, has⟩ := descending_cons.mp h
      by_cases ha : a.currentSp ≤ sp
      · rw [List.dropWhile_cons_of_pos (by simpa [Activation.left] using ha), ih has]
        simp [framesAbove, ha]
      · have hall : ∀ b ∈ a :: as, sp < b.currentSp := by
          intro b hb
          rcases List.mem_cons.mp hb with rfl | hb
          · exact not_le.mp ha
          · exact lt_trans (not_le.mp ha) (hlt b hb)
        rw [List.dropWhile_cons_of_neg (by simpa [Activation.left] using ha),
          framesAbove_eq_self hall]

lemma Descending.framesAbove (h : Descending as) (sp : UInt64) : Descending (framesAbove sp as) :=
  List.Pairwise.filter _ h

/-- A new frame goes below all that are left. -/
lemma Descending.push (h : Descending as) (ha : a.currentSp = sp) :
    Descending (a :: PerVERT.framesAbove sp as) := by
  refine descending_cons.mpr ⟨?_, h.framesAbove sp⟩
  intro b hb
  rw [ha]
  simpa using (List.mem_filter.mp hb).2

lemma Descending.tail (h : Descending as) : Descending as.tail := by
  cases as with
  | nil => exact h
  | cons a as => exact (descending_cons.mp h).2

lemma indicesRight_nil : IndicesRight [] := by simp [IndicesRight]

lemma indicesRight_cons :
    IndicesRight (a :: as) ↔ IndicesRight as ∧ a.vectorIndex = as.length := by
  simp only [IndicesRight, List.reverse_cons, getElem?_snoc, List.length_reverse]
  constructor
  · intro h
    exact ⟨fun i b hb => h i b (Or.inl hb), h as.length a (Or.inr ⟨rfl, rfl⟩)⟩
  · rintro ⟨h, ha⟩ i b (hb | ⟨rfl, rfl⟩)
    · exact h i b hb
    · exact ha

/-- The older frames keep their indices. -/
lemma IndicesRight.suffix {bs : List Activation} (h : IndicesRight as) (hsuffix : bs <:+ as) :
    IndicesRight bs := by
  obtain ⟨newer, rfl⟩ := hsuffix
  induction newer with
  | nil => exact h
  | cons a newer ih => exact ih (indicesRight_cons.mp h).1

end Order

/-! ## One callback -/

section Step

variable {sym : Symbols} {st st' : CallStack} {c : StackCallback}

/-- **What a callback does to frames in order**: it drops those left, and then pushes its own, at
the index there is room for in an `int`, or pops one. -/
lemma step_cases_inOrder (h : Descending st.activations) :
    ∃ st', st.step sym c = .ok st' ∧
      ((∃ sp a, c.entry = some sp ∧ a.currentSp = sp ∧
          a.vectorIndex = toInt (framesAbove sp st.activations).length ∧
          st'.activations = a :: framesAbove sp st.activations) ∨
        ∃ sp, c.entry = none ∧ st'.activations = (framesAbove sp st.activations).tail) := by
  cases hc : c.entry with
  | some sp =>
      obtain ⟨st', a, hstep, ha, hindex, hacts⟩ := @step_entry sym st c sp hc
      rw [dropWhile_left_eq h] at hindex hacts
      exact ⟨st', hstep, Or.inl ⟨sp, a, rfl, ha, hindex, hacts⟩⟩
  | none =>
      cases c with
      | processReturn ip sp =>
          obtain ⟨st', hstep, hacts⟩ := @step_return sym st ip sp
          rw [dropWhile_left_eq h] at hacts
          exact ⟨st', hstep, Or.inr ⟨sp, rfl, hacts⟩⟩
      | processDirectCall _ _ _ | processIndirectCall _ _ _ | processStub _ _ _ => cases hc
      | enterMainImage _ _ _ => cases hc

lemma Descending.step (h : Descending st.activations) (hstep : st.step sym c = .ok st') :
    Descending st'.activations := by
  obtain ⟨st'', hstep', hcases⟩ := @step_cases_inOrder sym st c h
  rw [hstep] at hstep'
  cases Except.ok.inj hstep'
  rcases hcases with ⟨sp, a, -, ha, -, hacts⟩ | ⟨sp, -, hacts⟩
  · exact hacts ▸ h.push ha
  · exact hacts ▸ (h.framesAbove sp).tail

/-- The frames below a new activation can be counted in an `int`. -/
def EntryFits (st : CallStack) (c : StackCallback) : Prop :=
  ∀ sp, c.entry = some sp → (framesAbove sp st.activations).length < 2 ^ 31

lemma framesAbove_suffix (h : Descending st.activations) (sp : UInt64) :
    framesAbove sp st.activations <:+ st.activations := by
  rw [← dropWhile_left_eq h]
  exact List.dropWhile_suffix _

/-- A callback keeps the indices right just if the new one fits. -/
lemma indicesRight_step (h : Descending st.activations) (hright : IndicesRight st.activations)
    (hstep : st.step sym c = .ok st') : IndicesRight st'.activations ↔ EntryFits st c := by
  obtain ⟨st'', hstep', hcases⟩ := @step_cases_inOrder sym st c h
  rw [hstep] at hstep'
  cases Except.ok.inj hstep'
  rcases hcases with ⟨sp, a, hentry, -, hindex, hacts⟩ | ⟨sp, hentry, hacts⟩
  · rw [hacts, indicesRight_cons, hindex, EntryFits, hentry]
    have hfits : toInt (framesAbove sp st.activations).length
        = (framesAbove sp st.activations).length ↔
          (framesAbove sp st.activations).length < 2 ^ 31 := by
      rw [toInt]
      omega
    rw [hfits]
    exact ⟨fun hr sp' hsp' => Option.some.inj hsp' ▸ hr.2,
      fun hr => ⟨hright.suffix (framesAbove_suffix h sp), hr sp rfl⟩⟩
  · rw [hacts, EntryFits, hentry]
    have hsuffix := (List.tail_suffix _).trans (framesAbove_suffix h sp)
    exact ⟨fun _ _ hnone => (by cases hnone), fun _ => hright.suffix hsuffix⟩

end Step

/-! ## Every run -/

/-- The activations are in order, so that `AdjustStack` leaves exactly those above the stack
pointer, and every callback runs through. -/
structure FramesInOrder (sym : Symbols) (st : CallStack) : Prop where
  descending : Descending st.activations
  adjusts : ∀ sp, st.adjustStack sp =
    .ok { st with activations := framesAbove sp st.activations }
  safe : ∀ c, ∃ st', st.step sym c = .ok st'

section Run

variable {sym : Symbols} {cs : List StackCallback}

lemma framesInOrder_of_descending {st : CallStack} (h : Descending st.activations) :
    FramesInOrder sym st := by
  refine ⟨h, fun sp => ?_, fun c => ?_⟩
  · rw [adjustStack_eq, dropWhile_left_eq h]
  · obtain ⟨st', hstep, -⟩ := @step_cases_inOrder sym st c h
    exact ⟨st', hstep⟩

lemma run_append_eq_ok {st st' : CallStack} {c : StackCallback} :
    st.run sym (cs ++ [c]) = .ok st' ↔
      ∃ st₁, st.run sym cs = .ok st₁ ∧ st₁.step sym c = .ok st' := by
  have hone : ∀ st₁ : CallStack, st₁.run sym [c] = st₁.step sym c := by
    intro st₁
    rw [CallStack.run_cons]
    exact bind_pure _
  rw [CallStack.run_append, checked_bind_eq_ok]
  simp only [hone]

/-- **Every run** leaves the activations in order. -/
lemma run_descending (sym : Symbols) (cs : List StackCallback) :
    ∃ st, CallStack.init.run sym cs = .ok st ∧ Descending st.activations := by
  induction cs using List.reverseRecOn with
  | nil => exact ⟨CallStack.init, rfl, List.Pairwise.nil⟩
  | append_singleton cs c ih =>
      obtain ⟨st, hrun, h⟩ := ih
      obtain ⟨st', hstep⟩ := (@framesInOrder_of_descending sym st h).safe c
      exact ⟨st', run_append_eq_ok.mpr ⟨st, hrun, hstep⟩, h.step hstep⟩

/-- Whenever a frame is entered, fewer than `2 ^ 31` activations are above its stack pointer. -/
def EntriesFit (sym : Symbols) (cs : List StackCallback) : Prop :=
  EachStep (fun before c => ∀ st, CallStack.init.run sym before = .ok st → EntryFits st c) cs

/-- In every state reached the indices are right. -/
def IndicesStayRight (sym : Symbols) (cs : List StackCallback) : Prop :=
  ∀ before, before <+: cs → ∀ st, CallStack.init.run sym before = .ok st →
    IndicesRight st.activations

lemma indicesStayRight_iff (sym : Symbols) (cs : List StackCallback) :
    IndicesStayRight sym cs ↔ EntriesFit sym cs := by
  induction cs using List.reverseRecOn with
  | nil =>
      refine iff_of_true (fun before hbefore st hrun => ?_) EachStep.nil
      rw [List.prefix_nil.mp hbefore] at hrun
      cases Except.ok.inj hrun
      exact indicesRight_nil
  | append_singleton cs c ih =>
      obtain ⟨st, hrun, h⟩ := run_descending sym cs
      obtain ⟨st', hstep⟩ := (@framesInOrder_of_descending sym st h).safe c
      have hrun' := run_append_eq_ok.mpr ⟨st, hrun, hstep⟩
      have hlast : IndicesRight st.activations → (IndicesRight st'.activations ↔
          ∀ st, CallStack.init.run sym cs = .ok st → EntryFits st c) := by
        intro hright
        rw [indicesRight_step h hright hstep]
        refine ⟨fun hfits st₁ h₁ => ?_, fun hfits => hfits st hrun⟩
        rw [hrun] at h₁
        exact Except.ok.inj h₁ ▸ hfits
      rw [EntriesFit, eachStep_append, ← EntriesFit, ← ih]
      constructor
      · intro hall
        refine ⟨fun before hbefore => hall before (hbefore.trans (List.prefix_append _ _)), ?_⟩
        exact (hlast (hall cs (List.prefix_append _ _) st hrun)).mp
          (hall _ (List.prefix_refl _) st' hrun')
      · rintro ⟨hall, hfits⟩ before hbefore st₁ h₁
        rcases List.prefix_concat_iff.mp hbefore with rfl | hbefore
        · rw [hrun'] at h₁
          cases Except.ok.inj h₁
          exact (hlast (hall cs (List.prefix_refl _) st hrun)).mpr hfits
        · exact hall before hbefore st₁ h₁

/-- **The activations of every run are in order**, at each of its points, so that `AdjustStack`
takes off exactly those at or below the stack pointer, and no callback fails.  Their indices are
right at each point just if no frame is entered on `2 ^ 31` others, because the size of the vector
is handed on as an `int`. -/
theorem callStack_inOrder_iff (sym : Symbols) (cs : List StackCallback) :
    (∀ before, before <+: cs →
      ∃ st, CallStack.init.run sym before = .ok st ∧ FramesInOrder sym st) ∧
    (IndicesStayRight sym cs ↔ EntriesFit sym cs) := by
  refine ⟨fun before _ => ?_, indicesStayRight_iff sym cs⟩
  obtain ⟨st, hrun, h⟩ := run_descending sym before
  exact ⟨st, hrun, framesInOrder_of_descending h⟩

/-! ## Too many activations -/

/-- A call at `n` bytes below `2 ^ 63`. -/
def nestedCall (n : ℕ) : StackCallback :=
  .processDirectCall 0 0 (UInt64.ofNat (2 ^ 63 - n))

/-- Calls one below the other, that never return. -/
def nestedCalls (n : ℕ) : List StackCallback :=
  (List.range n).map nestedCall

/-- Nothing has been left when the next one is made, and it gets their number for its index. -/
lemma step_nestedCall {st : CallStack} {n : ℕ} (hn : n < 2 ^ 63)
    (habove : ∀ b ∈ st.activations, 2 ^ 63 - n < b.currentSp.toNat) :
    ∃ st' a, st.step sym (nestedCall n) = .ok st' ∧ st'.activations = a :: st.activations ∧
      a.currentSp.toNat = 2 ^ 63 - n ∧ a.vectorIndex = toInt st.activations.length := by
  have hsp : (UInt64.ofNat (2 ^ 63 - n)).toNat = 2 ^ 63 - n :=
    UInt64.toNat_ofNat_of_lt' (by rw [UInt64.size]; omega)
  have hkept : st.activations.dropWhile (Activation.left (UInt64.ofNat (2 ^ 63 - n)))
      = st.activations := by
    cases hacts : st.activations with
    | nil => rfl
    | cons b bs =>
        have hb := habove b (by simp [hacts])
        rw [← hsp] at hb
        refine List.dropWhile_cons_of_neg ?_
        simpa [Activation.left] using UInt64.lt_iff_toNat_lt.mpr hb
  obtain ⟨st', a, hstep, ha, hindex, hacts⟩ := @step_entry sym st (nestedCall n) _ rfl
  rw [hkept] at hindex hacts
  exact ⟨st', a, hstep, hacts, by rw [ha, hsp], hindex⟩

lemma run_nestedCalls (sym : Symbols) (n : ℕ) : n ≤ 2 ^ 63 →
    ∃ st, CallStack.init.run sym (nestedCalls n) = .ok st ∧ st.activations.length = n ∧
      ∀ b ∈ st.activations, 2 ^ 63 - n < b.currentSp.toNat := by
  induction n with
  | zero => exact fun _ => ⟨CallStack.init, rfl, rfl, by simp [CallStack.init]⟩
  | succ n ih =>
      intro hn
      obtain ⟨st, hrun, hlen, habove⟩ := ih (by omega)
      obtain ⟨st', a, hstep, hacts, ha, -⟩ := @step_nestedCall sym st n (by omega) habove
      refine ⟨st', ?_, by rw [hacts, List.length_cons, hlen], ?_⟩
      · rw [nestedCalls, List.range_succ, List.map_append]
        exact run_append_eq_ok.mpr ⟨st, hrun, hstep⟩
      · intro b hb
        rw [hacts] at hb
        rcases List.mem_cons.mp hb with rfl | hb
        · omega
        · have := habove b hb
          omega

/-- The activation at index `2 ^ 31` says that it is at `-2 ^ 31`. -/
theorem nestedCalls_index_wraps :
    ∃ st a, CallStack.init.run ⟨fun _ => [], fun _ => []⟩ (nestedCalls (2 ^ 31 + 1)) = .ok st ∧
      st.activations.reverse[2 ^ 31]? = some a ∧ a.vectorIndex = -2 ^ 31 ∧
      ¬ IndicesRight st.activations := by
  obtain ⟨st, hrun, hlen, habove⟩ :=
    run_nestedCalls ⟨fun _ => [], fun _ => []⟩ (2 ^ 31) (by decide)
  obtain ⟨st', a, hstep, hacts, -, hindex⟩ :=
    @step_nestedCall ⟨fun _ => [], fun _ => []⟩ st (2 ^ 31) (by decide) habove
  have hwrapped : a.vectorIndex = -2 ^ 31 := by
    rw [hindex, hlen]
    decide
  have hlast : st'.activations.reverse[2 ^ 31]? = some a := by
    rw [hacts, List.reverse_cons, getElem?_snoc]
    exact Or.inr ⟨by rw [List.length_reverse, hlen], rfl⟩
  refine ⟨st', a, ?_, hlast, hwrapped, fun hright => ?_⟩
  · rw [nestedCalls, List.range_succ, List.map_append]
    exact run_append_eq_ok.mpr ⟨st, hrun, hstep⟩
  · have := hright _ a hlast
    rw [hwrapped] at this
    exact absurd this (by decide)

end Run

end PerVERT
