import PerVERT.Pintool.TraceText

/-!
# The tool as a whole

Pin calls the routines of the call stack and those of the recorder as the program runs, and every
record is printed with the call stack of its moment.

* `Tool`, `ToolCallback`, `Tool.step`, `Tool.run` — both machines under one sequence of callbacks.
* **`tool_run_splits`** — each machine runs as it does alone: the call stack on its own callbacks,
  the recorder on callbacks that carry the activations of their moment.
* `printed_record` — what the tool prints at a moment, and that it stays in the trace.
* `tool_ipsKnown` — when Pin gives no zero instruction pointer, none is printed.
* `ReturnedCalls`, **`ReturnedCalls.restores`** — calls that have all returned leave the activations
  as they were.
-/

namespace PerVERT

/-! ## The two machines -/

/-- The globals of the tool. -/
structure Tool where
  callStack : CallStack
  recorder : Recorder

/-- The globals before the program starts. -/
def Tool.init : Tool := ⟨.init, .init⟩

/-- The analysis routines.  `A_ProcessSyscall` does nothing. -/
inductive ToolCallback
  | stack (c : StackCallback)
  | processSyscall (ip : UInt64)
  | recordMemRead (ip addr : UInt64)
  | recordMemWrite (ip addr : UInt64)
  | recordMalloc (size : UInt64)
  | recordMallocResult (ip addr : UInt64)
  | recordFree (ip addr : UInt64)

/-- One routine.  Those of the recorder print `callStack`. -/
def Tool.step (sym : Symbols) (s : Tool) : ToolCallback → Checked Tool
  | .stack c => do
      let callStack ← s.callStack.step sym c
      pure { s with callStack }
  | .processSyscall _ => pure s
  | .recordMemRead ip addr =>
      pure { s with recorder := s.recorder.recordMemRead ip addr s.callStack.activations }
  | .recordMemWrite ip addr =>
      pure { s with recorder := s.recorder.recordMemWrite ip addr s.callStack.activations }
  | .recordMalloc size => pure { s with recorder := s.recorder.recordMalloc size }
  | .recordMallocResult ip addr =>
      pure { s with recorder := s.recorder.recordMallocResult ip addr s.callStack.activations }
  | .recordFree ip addr =>
      pure { s with recorder := s.recorder.recordFree ip addr s.callStack.activations }

/-- Routines one after the other, from the start of the program. -/
def Tool.run (sym : Symbols) (cs : List ToolCallback) : Checked Tool :=
  cs.foldlM (Tool.step sym) .init

/-- The routine is one of the call stack. -/
def ToolCallback.onStack : ToolCallback → Option StackCallback
  | .stack c => some c
  | _ => none

/-- The routine is one of the recorder, which sees these activations. -/
def ToolCallback.onRecorder (stack : List Activation) : ToolCallback → Option Callback
  | .stack _ | .processSyscall _ => none
  | .recordMemRead ip addr => some (.memRead ip addr stack)
  | .recordMemWrite ip addr => some (.memWrite ip addr stack)
  | .recordMalloc size => some (.malloc size)
  | .recordMallocResult ip addr => some (.mallocResult ip addr stack)
  | .recordFree ip addr => some (.free ip addr stack)

section Split

variable {sym : Symbols} {cs : List ToolCallback} {c : ToolCallback} {s s' : Tool}

lemma Tool.run_append_eq_ok : Tool.run sym (cs ++ [c]) = .ok s' ↔
    ∃ s, Tool.run sym cs = .ok s ∧ s.step sym c = .ok s' := by
  simp only [Tool.run, List.foldlM_append, List.foldlM_cons, List.foldlM_nil, checked_bind_eq_ok]
  constructor
  · rintro ⟨s, hs, s'', hs'', h⟩
    cases h
    exact ⟨s, hs, hs''⟩
  · rintro ⟨s, hs, hs'⟩
    exact ⟨s, hs, s', hs', rfl⟩

/-- **One routine** is one step of one of the machines, or none. -/
lemma tool_step_cases (h : s.step sym c = .ok s') :
    (∃ d, c = .stack d ∧ s.callStack.step sym d = .ok s'.callStack ∧ s'.recorder = s.recorder) ∨
      (c.onStack = none ∧ s'.callStack = s.callStack ∧
        s'.recorder = (c.onRecorder s.callStack.activations).toList.foldl Recorder.step
          s.recorder) := by
  cases c with
  | stack d =>
      obtain ⟨st, hst, hs'⟩ := checked_bind_eq_ok.mp h
      cases hs'
      exact Or.inl ⟨d, rfl, hst, rfl⟩
  | processSyscall ip => cases h; exact Or.inr ⟨rfl, rfl, rfl⟩
  | recordMemRead ip addr => cases h; exact Or.inr ⟨rfl, rfl, rfl⟩
  | recordMemWrite ip addr => cases h; exact Or.inr ⟨rfl, rfl, rfl⟩
  | recordMalloc size => cases h; exact Or.inr ⟨rfl, rfl, rfl⟩
  | recordMallocResult ip addr => cases h; exact Or.inr ⟨rfl, rfl, rfl⟩
  | recordFree ip addr => cases h; exact Or.inr ⟨rfl, rfl, rfl⟩

/-- **Each machine runs as it does alone.** -/
theorem tool_run_splits : ∀ {s : Tool}, Tool.run sym cs = .ok s →
    CallStack.run sym .init (cs.filterMap ToolCallback.onStack) = .ok s.callStack ∧
      ∃ callbacks, s.recorder = Recorder.run callbacks := by
  induction cs using List.reverseRecOn with
  | nil =>
      intro s h
      cases h
      exact ⟨rfl, [], rfl⟩
  | append_singleton cs c ih =>
      intro s' h
      obtain ⟨s, hs, hstep⟩ := Tool.run_append_eq_ok.mp h
      obtain ⟨hstack, callbacks, hrec⟩ := ih hs
      rw [List.filterMap_append, CallStack.run_append, hstack]
      rcases tool_step_cases hstep with ⟨d, rfl, hd, hsame⟩ | ⟨hc, hsame, hstep⟩
      · refine ⟨?_, callbacks, hsame.trans hrec⟩
        show s.callStack.run sym [d] = _
        rw [CallStack.run_cons, hd]
        rfl
      · refine ⟨?_, callbacks ++ (c.onRecorder s.callStack.activations).toList, ?_⟩
        · simp [hsame, hc, CallStack.run]
        · rw [hstep, hrec, Recorder.run, Recorder.run, List.foldl_append]

end Split

/-! ## What is printed -/

/-- The instruction pointer that a routine of the recorder prints. -/
def ToolCallback.printedIp : ToolCallback → Option UInt64
  | .recordMemRead ip _ | .recordMemWrite ip _ | .recordMallocResult ip _ | .recordFree ip _ =>
      some ip
  | .stack _ | .processSyscall _ | .recordMalloc _ => none

/-- The instruction pointer that a routine of the call stack is called with. -/
def StackCallback.ip : StackCallback → UInt64
  | .processDirectCall ip _ _ | .processIndirectCall ip _ _ | .processStub ip _ _
  | .processReturn ip _ | .enterMainImage ip _ _ => ip

/-- Pin gives the routine a real instruction pointer. -/
def ToolCallback.IpGiven : ToolCallback → Prop
  | .stack d => d.ip ≠ 0
  | .recordMemRead ip _ | .recordMemWrite ip _ | .recordMallocResult ip _ | .recordFree ip _ =>
      ip ≠ 0
  | .processSyscall _ | .recordMalloc _ => True

instance : ∀ c : ToolCallback, Decidable c.IpGiven
  | .stack d => inferInstanceAs (Decidable (d.ip ≠ 0))
  | .recordMemRead ip _ | .recordMemWrite ip _ | .recordMallocResult ip _ | .recordFree ip _ =>
      inferInstanceAs (Decidable (ip ≠ 0))
  | .processSyscall _ | .recordMalloc _ => inferInstanceAs (Decidable True)

lemma ToolCallback.IpGiven.printed {c : ToolCallback} (h : c.IpGiven) {ip : UInt64}
    (hip : c.printedIp = some ip) : ip ≠ 0 := by
  cases c with
  | stack d | processSyscall ip | recordMalloc size => cases hip
  | recordMemRead ip addr | recordMemWrite ip addr | recordMallocResult ip addr
  | recordFree ip addr =>
      cases hip
      exact h

section Printed

variable {sym : Symbols} {cs : List ToolCallback} {c : ToolCallback} {s s' : Tool}

/-- **What one routine prints**: nothing, or one record with the activations of the moment. -/
lemma tool_step_prints (h : s.step sym c = .ok s') :
    s'.recorder.trace = s.recorder.trace ∨
      ∃ body ip, c.printedIp = some ip ∧
        s'.recorder.trace = s.recorder.trace ++ [⟨body, ip, s.callStack.activations⟩] := by
  cases c with
  | stack d =>
      obtain ⟨st, -, hs'⟩ := checked_bind_eq_ok.mp h
      cases hs'
      exact Or.inl rfl
  | processSyscall ip | recordMalloc size =>
      cases h
      exact Or.inl rfl
  | recordMallocResult ip addr =>
      cases h
      exact Or.inr ⟨.M addr (addr + s.recorder.request), ip, rfl, rfl⟩
  | recordMemRead ip addr =>
      cases h
      simp only [Recorder.recordMemRead, Recorder.recordAccess]
      split_ifs
      · exact Or.inr ⟨.R addr, ip, rfl, rfl⟩
      · exact Or.inl rfl
  | recordMemWrite ip addr =>
      cases h
      simp only [Recorder.recordMemWrite, Recorder.recordAccess]
      split_ifs
      · exact Or.inr ⟨.W addr, ip, rfl, rfl⟩
      · exact Or.inl rfl
  | recordFree ip addr =>
      cases h
      simp only [Recorder.recordFree]
      split_ifs
      · exact Or.inr ⟨.F addr, ip, rfl, rfl⟩
      · exact Or.inl rfl

/-- What has been printed stays. -/
lemma tool_trace_prefix {after : List ToolCallback} : ∀ {s' : Tool}, Tool.run sym cs = .ok s →
    Tool.run sym (cs ++ after) = .ok s' → s.recorder.trace <+: s'.recorder.trace := by
  induction after using List.reverseRecOn with
  | nil =>
      intro s' hs hs'
      rw [List.append_nil, hs] at hs'
      cases hs'
      exact List.prefix_refl _
  | append_singleton after c ih =>
      intro s' hs hs'
      rw [← List.append_assoc] at hs'
      obtain ⟨s₁, hs₁, hstep⟩ := Tool.run_append_eq_ok.mp hs'
      refine (ih hs hs₁).trans ?_
      rcases tool_step_prints hstep with hsame | ⟨body, ip, -, hprints⟩
      · rw [hsame]
      · rw [hprints]
        exact List.prefix_append _ _

/-- The routine printed the record at position `k`, between these two states. -/
structure Prints (sym : Symbols) (before : List ToolCallback) (c : ToolCallback) (s : Tool)
    (k : ℕ) : Prop where
  state : Tool.run sym before = .ok s
  first : s.recorder.trace.length = k
  printed : ∀ s', s.step sym c = .ok s' → s'.recorder.trace.length = k + 1

/-- **A record that was printed** is in the trace of the whole run. -/
lemma printed_record {before after : List ToolCallback} {k : ℕ} (h : Prints sym before c s k)
    (hrun : Tool.run sym (before ++ c :: after) = .ok s') :
    ∃ body ip, c.printedIp = some ip ∧
      s'.recorder.trace[k]? = some ⟨body, ip, s.callStack.activations⟩ := by
  obtain ⟨s₁, hs₁⟩ : ∃ s₁, Tool.run sym (before ++ [c]) = .ok s₁ := by
    rw [List.append_cons, Tool.run, List.foldlM_append] at hrun
    obtain ⟨s₁, hs₁, -⟩ := checked_bind_eq_ok.mp hrun
    exact ⟨s₁, hs₁⟩
  obtain ⟨s₀, hs₀, hstep⟩ := Tool.run_append_eq_ok.mp hs₁
  cases h.state.symm.trans hs₀
  rw [List.append_cons] at hrun
  have hprefix := tool_trace_prefix hs₁ hrun
  rcases tool_step_prints hstep with hsame | ⟨body, ip, hip, hprints⟩
  · have hlen := h.printed s₁ hstep
    rw [hsame, h.first] at hlen
    omega
  · refine ⟨body, ip, hip, ?_⟩
    rw [hprints] at hprefix
    obtain ⟨rest, hrest⟩ := hprefix
    rw [← hrest, ← h.first]
    simp

/-- Entries of the call stack carry the instruction pointers that they were called with. -/
lemma step_ips {st st' : CallStack} {d : StackCallback} (h : st.step sym d = .ok st') :
    ∀ a ∈ st'.activations, a ∈ st.activations ∨ a.ip = d.ip := by
  have hleft : ∀ sp a, a ∈ st.activations.dropWhile (Activation.left sp) → a ∈ st.activations :=
    fun sp a ha => List.dropWhile_subset _ ha
  cases d with
  | processReturn ip sp =>
      obtain ⟨st₁, h₁, hacts⟩ := @step_return sym st ip sp
      cases h₁.symm.trans h
      intro a ha
      rw [hacts] at ha
      exact Or.inl (hleft sp a (List.mem_of_mem_tail ha))
  | enterMainImage ip target sp =>
      rw [CallStack.step, CallStack.processMainEntry, adjustStack_eq] at h
      cases h
      intro a ha
      rcases List.mem_cons.mp ha with rfl | ha
      · exact Or.inr rfl
      · exact Or.inl (hleft sp a ha)
  | processDirectCall ip target sp | processIndirectCall ip target sp | processStub ip target sp =>
      rw [CallStack.step, processCall_eq] at h
      cases h
      intro a ha
      rcases List.mem_cons.mp ha with rfl | ha
      · exact Or.inr rfl
      · exact Or.inl (hleft sp a ha)

/-- **No zero pointer is printed** when Pin gives none. -/
lemma tool_ipsKnown : ∀ {s : Tool}, (∀ c ∈ cs, c.IpGiven) → Tool.run sym cs = .ok s →
    (∀ a ∈ s.callStack.activations, a.ip ≠ 0) ∧ ∀ r ∈ s.recorder.trace, r.IpsKnown := by
  induction cs using List.reverseRecOn with
  | nil =>
      intro s _ h
      cases h
      simp [Tool.init, CallStack.init, Recorder.init]
  | append_singleton cs c ih =>
      intro s' hgiven h
      obtain ⟨s, hs, hstep⟩ := Tool.run_append_eq_ok.mp h
      obtain ⟨hacts, htrace⟩ := ih (fun d hd => hgiven d (List.mem_append_left _ hd)) hs
      have hc := hgiven c (by simp)
      constructor
      · intro a ha
        rcases tool_step_cases hstep with ⟨d, rfl, hd, -⟩ | ⟨-, hsame, -⟩
        · rcases step_ips hd a ha with ha | ha
          · exact hacts a ha
          · rw [ha]
            exact hc
        · rw [hsame] at ha
          exact hacts a ha
      · intro r hr
        rcases tool_step_prints hstep with hsame | ⟨body, ip, hip, hprints⟩
        · rw [hsame] at hr
          exact htrace r hr
        · rw [hprints] at hr
          rcases List.mem_append.mp hr with hr | hr
          · exact htrace r hr
          · rw [List.mem_singleton.mp hr]
            exact ⟨hc.printed hip, hacts⟩

end Printed

/-! ## Calls that have returned -/

/-- Calls entered at `r` or below, one after the other, each of which has returned; a return
address takes `w` bytes. -/
inductive ReturnedCalls (w : ℕ) (r : UInt64) : List StackCallback → Prop
  | nil : ReturnedCalls w r []
  | frame {sp r' ip : UInt64} {c : StackCallback} {inner cs : List StackCallback}
      (hc : c.entry = some sp) (hsp : sp ≤ r) (hr' : r'.toNat + w = sp.toNat)
      (body : Body w r' inner) (rest : ReturnedCalls w r cs) :
      ReturnedCalls w r (c :: inner ++ .processReturn ip r' :: cs)

/-- **Calls that have returned** leave the activations as they were. -/
theorem ReturnedCalls.restores {sym : Symbols} {w : ℕ} (hw : 1 ≤ w) {r : UInt64}
    {cs : List StackCallback} (h : ReturnedCalls w r cs) : ∀ (st : CallStack),
      (∀ a ∈ st.activations, r < a.currentSp) →
      ∃ st', st.run sym cs = .ok st' ∧ st'.activations = st.activations := by
  induction h with
  | nil => exact fun st _ => ⟨st, rfl, rfl⟩
  | @frame sp r' ip c inner cs hc hsp hr' body _ ih =>
      intro st habove
      obtain ⟨st₁, h₁, hacts₁⟩ := @run_frame sym w hw c sp r' ip inner hc hr'
        (body.keepsFrame hw) st
      have hsame : st₁.activations = st.activations := by
        rw [hacts₁]
        cases hst : st.activations with
        | nil => rfl
        | cons a rest =>
            have ha : r < a.currentSp := habove a (by simp [hst])
            refine List.dropWhile_cons_of_neg ?_
            simpa [Activation.left] using lt_of_le_of_lt hsp ha
      obtain ⟨st₂, h₂, hacts₂⟩ := ih st₁ (by rw [hsame]; exact habove)
      refine ⟨st₂, ?_, hacts₂.trans hsame⟩
      rw [show c :: inner ++ .processReturn ip r' :: cs
        = (c :: inner ++ [.processReturn ip r']) ++ cs by simp, CallStack.run_append, h₁]
      exact h₂

end PerVERT
