import PerVERT.Core.Fault
import PerVERT.Core.HexText
import PerVERT.Core.OrderedMap
import Mathlib.Data.List.Infix
import Mathlib.Data.List.TakeWhile

/-!
# The call stack of the pin tool

The tool follows the traced program's calls and returns.  Each callback first brings the stack
back in step with the stack pointer, because frames may have been left by a `longjmp` and the
entries of PLT stubs never return.

* `AdjustStack` drops the newest activations as long as the stack pointer has reached them;
  `adjustStack_eq` says which ones remain.
* `StackCallback`, `CallStack.step`, `CallStack.run` — the callbacks, one after the other.
* `Body` — what may happen inside a frame, nested to any depth.
* **`processReturn_restores`** — a frame's return leaves the activations as they were before its
  call.

Activations are listed newest first: the back of the vector is the head of the list.
-/

namespace PerVERT

/-! ## The class -/

/-- `Activation`. -/
structure Activation where
  vectorIndex : ℤ
  ip : UInt64
  /-- The stack pointer at the call. -/
  currentSp : UInt64
  target : UInt64
  deriving DecidableEq, Repr

/-- What the tool asks Pin about an address: `RTN_FindNameByAddress`, and `IMG_Name` of the image
the routine at the address belongs to. -/
structure Symbols where
  findNameByAddress : UInt64 → Text
  libName : UInt64 → Text

/-- `Target2RtnName`.  The pointer prints like a number. -/
def target2RtnName (sym : Symbols) (ip target : UInt64) : Text :=
  if ip = 0 then
    let name := sym.findNameByAddress target
    if name = [] then "[Unknown routine]".toList else name
  else
    showHex ip.toNat

/-- `CallStack`. -/
structure CallStack where
  mainEntryDepth : ℕ
  enterOpaqueLibEntry : ℕ
  activations : List Activation
  deriving DecidableEq, Repr

/-- `CallStack::CallStack`. -/
def CallStack.init : CallStack := ⟨2 ^ 64 - 1, 0, []⟩

/-- `isOpaqueLib`. -/
def isOpaqueLib (lib : Text) : Bool :=
  false && (lib = "/lib/tls/libc.so.6".toList || lib = "/lib/ld-linux.so.2".toList)

/-- `isOpaqueRtn`. -/
def isOpaqueRtn (rtn : Text) : Bool :=
  false && (rtn = "malloc@@GLIBC_2.0".toList || "GLIBC".toList <:+: rtn)

/-- `CallStack::CreateActivation`. -/
def CallStack.createActivation (st : CallStack) (pc currentSp target : UInt64) : CallStack :=
  { st with
    activations := ⟨toInt st.activations.length, pc, currentSp, target⟩ :: st.activations }

/-- The `while` loop of `AdjustStack`. -/
def adjustLoop (currentSp : UInt64) : List Activation → Checked (List Activation)
  | [] => .error .emptyContainer
  | a :: rest =>
      if a.currentSp ≤ currentSp then
        if (a :: rest).length = 1 then pure rest
        else do
          assertC (0 < rest.length) "_activations.size() > 0"
          adjustLoop currentSp rest
      else
        pure (a :: rest)

/-- `CallStack::AdjustStack`. -/
def CallStack.adjustStack (st : CallStack) (currentSp : UInt64) : Checked CallStack :=
  if st.activations.length = 0 then pure st
  else do
    let activations ← adjustLoop currentSp st.activations
    pure { st with activations }

/-- `CallStack::ProcessCall`. -/
def CallStack.processCall (sym : Symbols) (st : CallStack) (ip currentSp target : UInt64) :
    Checked CallStack := do
  let st ← st.adjustStack currentSp
  let opaqueCall := st.mainEntryDepth ≤ st.activations.length ∧ st.enterOpaqueLibEntry = 0 ∧
    (isOpaqueLib (sym.libName target) || isOpaqueRtn (target2RtnName sym 0 target))
  let st := if opaqueCall then { st with enterOpaqueLibEntry := st.activations.length } else st
  pure (st.createActivation ip currentSp target)

/-- `CallStack::ProcessMainEntry`. -/
def CallStack.processMainEntry (st : CallStack) (ip currentSp target : UInt64) :
    Checked CallStack := do
  let st ← st.adjustStack currentSp
  let st := { st with mainEntryDepth := st.activations.length }
  pure (st.createActivation ip currentSp target)

/-- `CallStack::ProcessReturn`, on every target but 32-bit Windows. -/
def CallStack.processReturn (st : CallStack) (currentSp : UInt64) : Checked CallStack := do
  let st ← st.adjustStack currentSp
  let st := if st.enterOpaqueLibEntry = st.activations.length
    then { st with enterOpaqueLibEntry := 0 } else st
  pure { st with activations := st.activations.tail }

/-- `CallStack::DumpStack`, of a stack that holds these activations. -/
def dumpStack (sym : Symbols) (activations : List Activation) : Text :=
  activations.flatMap fun a => ' ' :: target2RtnName sym a.ip a.target

/-! ## The callbacks -/

/-- The analysis routines that reach the call stack. -/
inductive StackCallback
  | processDirectCall (ip target sp : UInt64)
  | processIndirectCall (ip target sp : UInt64)
  | processStub (ip target sp : UInt64)
  | processReturn (ip sp : UInt64)
  | enterMainImage (ip target sp : UInt64)

/-- One callback. -/
def CallStack.step (sym : Symbols) (st : CallStack) : StackCallback → Checked CallStack
  | .processDirectCall ip target sp => st.processCall sym ip sp target
  | .processIndirectCall ip target sp => st.processCall sym ip sp target
  | .processStub ip target sp => st.processCall sym ip sp target
  | .processReturn _ sp => st.processReturn sp
  | .enterMainImage ip target sp => st.processMainEntry ip sp target

/-- Callbacks one after the other. -/
def CallStack.run (sym : Symbols) (st : CallStack) (cs : List StackCallback) : Checked CallStack :=
  cs.foldlM (fun st c => st.step sym c) st

/-! ## What a callback does to the activations -/

section Step

variable {sym : Symbols}

/-- The stack pointer has reached the frame: it is gone. -/
def Activation.left (sp : UInt64) (a : Activation) : Bool := a.currentSp ≤ sp

/-- The loop drops the frames left, and neither asserts nor reads an empty vector. -/
lemma adjustLoop_eq (sp : UInt64) : ∀ {as : List Activation}, as ≠ [] →
    adjustLoop sp as = .ok (as.dropWhile (Activation.left sp))
  | [], h => absurd rfl h
  | [a], _ => by
      simp only [adjustLoop, List.dropWhile, Activation.left, List.length_singleton, if_true]
      split_ifs with h <;> simp [h] <;> rfl
  | a :: b :: rest, _ => by
      have ih := adjustLoop_eq sp (List.cons_ne_nil b rest)
      have hlen : (a :: b :: rest).length ≠ 1 := by simp
      rw [adjustLoop]
      split_ifs with h
      · rw [List.dropWhile_cons_of_pos (by simpa [Activation.left] using h), ← ih]
        rfl
      · rw [List.dropWhile_cons_of_neg (by simpa [Activation.left] using h)]
        rfl

/-- **What `AdjustStack` leaves.** -/
lemma adjustStack_eq (st : CallStack) (sp : UInt64) : st.adjustStack sp =
    .ok { st with activations := st.activations.dropWhile (Activation.left sp) } := by
  rw [CallStack.adjustStack]
  split_ifs with h
  · have hnil : st.activations = [] := List.length_eq_zero_iff.mp h
    obtain ⟨d, e, as⟩ := st
    simp only at hnil
    subst hnil
    rfl
  · rw [adjustLoop_eq sp (fun hnil => h (by rw [hnil]; rfl))]
    rfl

/-- The stack pointer at which a callback enters a frame. -/
def StackCallback.entry : StackCallback → Option UInt64
  | .processDirectCall _ _ sp => some sp
  | .processIndirectCall _ _ sp => some sp
  | .processStub _ _ sp => some sp
  | .enterMainImage _ _ sp => some sp
  | .processReturn _ _ => none

/-- No library and no routine is opaque any more, so a call always does the same. -/
lemma processCall_eq (st : CallStack) (ip sp target : UInt64) : st.processCall sym ip sp target =
    .ok (CallStack.createActivation
      { st with activations := st.activations.dropWhile (Activation.left sp) } ip sp target) := by
  have hopaque : (isOpaqueLib (sym.libName target) || isOpaqueRtn (target2RtnName sym 0 target))
      = false := by
    simp [isOpaqueLib, isOpaqueRtn]
  rw [CallStack.processCall, adjustStack_eq, hopaque]
  show Except.ok
    (CallStack.createActivation (if _ ∧ _ ∧ false = true then _ else _) ip sp target) = _
  rw [if_neg (by simp)]

/-- An entry puts its frame on the frames not left. -/
lemma step_entry (st : CallStack) {c : StackCallback} {sp : UInt64} (hc : c.entry = some sp) :
    ∃ st' a, st.step sym c = .ok st' ∧ a.currentSp = sp ∧
      a.vectorIndex = toInt (st.activations.dropWhile (Activation.left sp)).length ∧
      st'.activations = a :: st.activations.dropWhile (Activation.left sp) := by
  cases c with
  | processReturn ip r => cases hc
  | enterMainImage ip target r =>
      cases Option.some.inj hc
      rw [CallStack.step, CallStack.processMainEntry, adjustStack_eq]
      exact ⟨_, ⟨_, _, _, _⟩, rfl, rfl, rfl, rfl⟩
  | processDirectCall ip target r | processIndirectCall ip target r | processStub ip target r =>
      cases Option.some.inj hc
      rw [CallStack.step, processCall_eq]
      exact ⟨_, ⟨_, _, _, _⟩, rfl, rfl, rfl, rfl⟩

/-- A return drops the frames left and one more. -/
lemma step_return (st : CallStack) (ip sp : UInt64) :
    ∃ st', st.step sym (.processReturn ip sp) = .ok st' ∧
      st'.activations = (st.activations.dropWhile (Activation.left sp)).tail := by
  rw [CallStack.step, CallStack.processReturn, adjustStack_eq]
  refine ⟨_, rfl, ?_⟩
  split_ifs <;> rfl

lemma CallStack.run_cons {st : CallStack} {c : StackCallback} {cs : List StackCallback} :
    st.run sym (c :: cs) = st.step sym c >>= fun st => st.run sym cs := by
  rw [CallStack.run, List.foldlM_cons]
  rfl

lemma CallStack.run_append {st : CallStack} {cs₁ cs₂ : List StackCallback} :
    st.run sym (cs₁ ++ cs₂) = st.run sym cs₁ >>= fun st => st.run sym cs₂ := by
  rw [CallStack.run, List.foldlM_append]
  rfl

end Step

/-! ## Inside a frame -/

/-- What may happen between the call of a frame and its return at stack pointer `r`, when a return
address takes `w` bytes: entries at `r` or below that never return (PLT stubs, main entries,
frames left by a `longjmp`), and frames entered there that do return, with such a body of their
own. -/
inductive Body (w : ℕ) : UInt64 → List StackCallback → Prop
  | nil {r : UInt64} : Body w r []
  | enter {r sp : UInt64} {c : StackCallback} {cs : List StackCallback} (hc : c.entry = some sp)
      (hsp : sp ≤ r) (rest : Body w r cs) : Body w r (c :: cs)
  | frame {r sp r' ip : UInt64} {c : StackCallback} {inner cs : List StackCallback}
      (hc : c.entry = some sp) (hsp : sp ≤ r) (hr' : r'.toNat + w = sp.toNat)
      (body : Body w r' inner) (rest : Body w r cs) :
      Body w r (c :: inner ++ .processReturn ip r' :: cs)

section Frames

variable {sym : Symbols} {w : ℕ}

/-- The callbacks leave the first frame above `r`, and all below it, in place. -/
def KeepsFrame (sym : Symbols) (r : UInt64) (cs : List StackCallback) : Prop :=
  ∀ (st : CallStack) (extra : List Activation) (frame : Activation) (base : List Activation),
    st.activations = extra ++ frame :: base → (∀ a ∈ extra, a.currentSp ≤ r) →
    r < frame.currentSp →
    ∃ st' extra', st.run sym cs = .ok st' ∧ st'.activations = extra' ++ frame :: base ∧
      ∀ a ∈ extra', a.currentSp ≤ r

lemma dropWhile_left_append {sp : UInt64} {extra : List Activation} {frame : Activation}
    {base : List Activation} (h : sp < frame.currentSp) :
    (extra ++ frame :: base).dropWhile (Activation.left sp)
      = extra.dropWhile (Activation.left sp) ++ frame :: base := by
  have hstop : ¬ Activation.left sp frame = true := by
    simpa [Activation.left] using h
  rw [List.dropWhile_append, List.dropWhile_cons_of_neg hstop]
  split_ifs with hnil
  · rw [List.isEmpty_iff.mp hnil, List.nil_append]
  · rfl

/-- **One frame.**  When the body keeps the frame, entering and returning together drop exactly
the frames that the entry found left. -/
lemma run_frame (hw : 1 ≤ w) {c : StackCallback} {sp r ip : UInt64} {body : List StackCallback}
    (hc : c.entry = some sp) (hr : r.toNat + w = sp.toNat) (hbody : KeepsFrame sym r body)
    (st : CallStack) :
    ∃ st', st.run sym (c :: body ++ [.processReturn ip r]) = .ok st' ∧
      st'.activations = st.activations.dropWhile (Activation.left sp) := by
  obtain ⟨st₁, a, h₁, ha, -, hacts₁⟩ := @step_entry sym st c sp hc
  have hra : r < a.currentSp := by
    rw [ha, UInt64.lt_iff_toNat_lt]
    omega
  obtain ⟨st₂, extra, h₂, hacts₂, hextra⟩ :=
    hbody st₁ [] a (st.activations.dropWhile (Activation.left sp)) hacts₁ (by simp) hra
  obtain ⟨st₃, h₃, hacts₃⟩ := @step_return sym st₂ ip r
  refine ⟨st₃, ?_, ?_⟩
  · rw [List.cons_append, CallStack.run_cons, h₁]
    show st₁.run sym (body ++ [.processReturn ip r]) = _
    rw [CallStack.run_append, h₂]
    show st₂.run sym [.processReturn ip r] = _
    rw [CallStack.run_cons, h₃]
    rfl
  · -- everything above the frame has been left, so the frame itself is the one more popped
    have hgone : extra.dropWhile (Activation.left r) = [] := by
      rw [List.dropWhile_eq_nil_iff]
      intro x hx
      simpa [Activation.left] using hextra x hx
    rw [hacts₃, hacts₂, dropWhile_left_append hra, hgone]
    rfl

/-- **Every body keeps the frame**, by induction on the body. -/
lemma Body.keepsFrame (hw : 1 ≤ w) {r : UInt64} {cs : List StackCallback} (h : Body w r cs) :
    KeepsFrame sym r cs := by
  induction h with
  | nil => exact fun st extra frame base hacts hextra _ => ⟨st, extra, rfl, hacts, hextra⟩
  | @enter r sp c cs hc hsp _ ih =>
      intro st extra frame base hacts hextra hframe
      obtain ⟨st₁, a, h₁, ha, -, hacts₁⟩ := @step_entry sym st c sp hc
      rw [hacts, dropWhile_left_append (lt_of_le_of_lt hsp hframe), ← List.cons_append] at hacts₁
      have hextra₁ : ∀ x ∈ a :: extra.dropWhile (Activation.left sp), x.currentSp ≤ r := by
        intro x hx
        rcases List.mem_cons.mp hx with rfl | hx
        · rw [ha]; exact hsp
        · exact hextra x (List.dropWhile_subset _ hx)
      obtain ⟨st₂, extra', h₂, hacts₂, hextra₂⟩ := ih st₁ _ frame base hacts₁ hextra₁ hframe
      refine ⟨st₂, extra', ?_, hacts₂, hextra₂⟩
      rw [CallStack.run_cons, h₁]
      exact h₂
  | @frame r sp r' ip c inner cs hc hsp hr' _ _ ihBody ihRest =>
      intro st extra frame base hacts hextra hframe
      obtain ⟨st₁, h₁, hacts₁⟩ := @run_frame sym w hw c sp r' ip inner hc hr' ihBody st
      rw [hacts, dropWhile_left_append (lt_of_le_of_lt hsp hframe)] at hacts₁
      have hextra₁ : ∀ x ∈ extra.dropWhile (Activation.left sp), x.currentSp ≤ r :=
        fun x hx => hextra x (List.dropWhile_subset _ hx)
      obtain ⟨st₂, extra', h₂, hacts₂, hextra₂⟩ := ihRest st₁ _ frame base hacts₁ hextra₁ hframe
      refine ⟨st₂, extra', ?_, hacts₂, hextra₂⟩
      rw [show c :: inner ++ .processReturn ip r' :: cs
        = (c :: inner ++ [.processReturn ip r']) ++ cs by simp, CallStack.run_append, h₁]
      exact h₂

/-- **A return restores the activations.**  A frame is entered at `s`, below every activation
present; whatever its body, the return at `s - w` leaves the list that was there before.  The body
may be any nesting of calls that have returned, of stubs, and of frames that were left without a
return: whatever of it is still there goes together with the frame. -/
theorem processReturn_restores (sym : Symbols) {w : ℕ} (hw : 1 ≤ w) (st : CallStack)
    {c : StackCallback} {s r : UInt64} (ip : UInt64) {body : List StackCallback}
    (hc : c.entry = some s) (habove : ∀ a ∈ st.activations, s < a.currentSp)
    (hr : r.toNat + w = s.toNat) (hbody : Body w r body) :
    ∃ st', st.run sym (c :: body ++ [.processReturn ip r]) = .ok st' ∧
      st'.activations = st.activations := by
  obtain ⟨st', hrun, hacts⟩ := run_frame hw hc hr (hbody.keepsFrame hw) st
  refine ⟨st', hrun, hacts.trans ?_⟩
  cases hst : st.activations with
  | nil => rfl
  | cons a rest =>
      have ha : s < a.currentSp := habove a (by rw [hst]; exact List.mem_cons_self)
      exact List.dropWhile_cons_of_neg (by simpa [Activation.left] using ha)

end Frames

/-- A stub, a nested call that returns, and a frame left by a `longjmp`. -/
theorem callWithLeftovers_restores :
    ∃ st', (CallStack.mk 0 0 [⟨0, 0x400000, 0x7fff1000, 0x400100⟩]).run ⟨fun _ => [], fun _ => []⟩
        [.processDirectCall 0x400110 0x400200 0x7fff0800, .processStub 0x400210 0x400300 0x7fff07f8,
          .processDirectCall 0x400220 0x400400 0x7fff0700, .processReturn 0x400410 0x7fff06f8,
          .processIndirectCall 0x400230 0x400500 0x7fff0600, .processReturn 0x400290 0x7fff07f8]
        = .ok st' ∧ st'.activations = [⟨0, 0x400000, 0x7fff1000, 0x400100⟩] := by
  have hbody : Body 8 0x7fff07f8 [.processStub 0x400210 0x400300 0x7fff07f8,
      .processDirectCall 0x400220 0x400400 0x7fff0700, .processReturn 0x400410 0x7fff06f8,
      .processIndirectCall 0x400230 0x400500 0x7fff0600] :=
    .enter rfl (by decide)
      (@Body.frame 8 _ _ _ _ _ [] _ rfl (by decide) (by decide) .nil
        (.enter rfl (by decide) .nil))
  exact processReturn_restores _ (by decide) _ 0x400290 rfl (by decide) (by decide) hbody

end PerVERT
