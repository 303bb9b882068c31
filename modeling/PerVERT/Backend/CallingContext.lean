import PerVERT.Backend.RecordedRun
import PerVERT.Pintool.Tool

/-!
# Calling contexts

The server groups the events of a trace by the stack text of their lines, and the stack, event and
histogram views of a frame are views of its group.  What the groups are in the traced program is
said here in terms of the tool's run.

* `byContext_iff` — two events are in one group just if the tool printed the same instruction
  pointers for them.
* **`completedCalls_shareContext`** — an instruction that accesses memory again after calls that
  have all returned falls into the group of its first access.
-/

namespace PerVERT

section Contexts

variable {sym : Symbols} {junk : Junk} {location : Location} {lines : Text} {t : Trace}
  {cs : List Callback}

/-- The group of a record is that of its stack text. -/
lemma mem_byContext_iff (hips : ∀ r ∈ (Recorder.run cs).trace, r.IpsKnown)
    (h : Constructs junk location lines (traceText sym (Recorder.run cs).trace) t) {k : ℕ}
    {r : Record} (hr : (Recorder.run cs).trace[k]? = some r) (context : Text) :
    k ∈ t.byContext context ↔ context = stackText sym r := by
  obtain ⟨p, hload, -, htold⟩ := exists_load_of_constructs hips h
  obtain ⟨-, m, -, -, rfl⟩ := load_mapped hload
  have hindex : (indexedTrace p 1024).byContext context
      = positions (fun e => e.context = context) p.events := rfl
  obtain ⟨hk, rfl⟩ := List.getElem?_eq_some_iff.mp hr
  have hk' : k < p.events.length := by simpa [← htold.length_eq] using hk
  have htells := (List.forall₂_iff_get.mp htold).2 k (by simpa using hk) hk'
  have hcontext : p.events[k].context = stackText sym (Recorder.run cs).trace[k] := by
    simpa [Record.entry] using htells.context
  show k ∈ (indexedTrace p 1024).byContext context ↔ _
  rw [hindex, mem_positions]
  simp [hk', hcontext, eq_comm]

/-- **The groups of the events.** -/
theorem byContext_iff (hips : ∀ r ∈ (Recorder.run cs).trace, r.IpsKnown)
    (h : Constructs junk location lines (traceText sym (Recorder.run cs).trace) t) {k k' : ℕ}
    {r r' : Record} (hr : (Recorder.run cs).trace[k]? = some r)
    (hr' : (Recorder.run cs).trace[k']? = some r') :
    (∃ context, k ∈ t.byContext context ∧ k' ∈ t.byContext context) ↔ r.ips = r'.ips := by
  simp only [mem_byContext_iff hips h hr, mem_byContext_iff hips h hr', exists_eq_left]
  exact stackText_eq_iff sym (hips r (List.mem_of_getElem? hr)) (hips r' (List.mem_of_getElem? hr'))

end Contexts

section Calls

variable {sym : Symbols} {before middle : List ToolCallback} {c : ToolCallback} {s s' : Tool}

/-- What the call stack does between two moments. -/
lemma callStack_between (h : Tool.run sym before = .ok s) (hc : c.onStack = none)
    (h' : Tool.run sym (before ++ c :: middle) = .ok s') :
    s.callStack.run sym (middle.filterMap ToolCallback.onStack) = .ok s'.callStack := by
  have hfirst := (tool_run_splits h).1
  have hsecond := (tool_run_splits h').1
  rw [List.filterMap_append, CallStack.run_append, hfirst, List.filterMap_cons, hc] at hsecond
  exact hsecond

/-- **Completed calls keep the group.**  For every run of the tool and the trace constructed from
it: when two routines print records for one instruction, and the calls made between them, entered
below the frames there are, have all returned, the two events are in one group. -/
theorem completedCalls_shareContext {junk : Junk} {location : Location} {lines : Text} {t : Trace}
    {c' : ToolCallback} {after : List ToolCallback} {final : Tool} {w k k' : ℕ} {r ip : UInt64}
    (hw : 1 ≤ w) (hrun : Tool.run sym (before ++ c :: (middle ++ c' :: after)) = .ok final)
    (hgiven : ∀ d ∈ before ++ c :: (middle ++ c' :: after), d.IpGiven)
    (h : Constructs junk location lines (traceText sym final.recorder.trace) t)
    (hfirst : Prints sym before c s k) (hsecond : Prints sym (before ++ c :: middle) c' s' k')
    (hip : c.printedIp = some ip) (hip' : c'.printedIp = some ip)
    (habove : ∀ a ∈ s.callStack.activations, r < a.currentSp)
    (hcalls : ReturnedCalls w r (middle.filterMap ToolCallback.onStack)) :
    ∃ context, k ∈ t.byContext context ∧ k' ∈ t.byContext context := by
  have hnone : c.onStack = none := by cases c <;> first | rfl | cases hip
  have hstack := callStack_between hfirst.state hnone hsecond.state
  obtain ⟨st, hst, hacts⟩ := hcalls.restores hw s.callStack habove
  cases hst.symm.trans hstack
  have hips := (tool_ipsKnown hgiven hrun).2
  obtain ⟨body, ip₁, hip₁, hr⟩ := printed_record hfirst hrun
  cases hip.symm.trans hip₁
  have hrun' := hrun
  rw [← List.cons_append, ← List.append_assoc] at hrun'
  obtain ⟨body', ip₂, hip₂, hr'⟩ := printed_record hsecond hrun'
  cases hip'.symm.trans hip₂
  obtain ⟨-, callbacks, hrec⟩ := tool_run_splits hrun
  rw [hrec] at h hips hr hr'
  rw [byContext_iff hips h hr hr']
  simp [Record.ips, hacts]

end Calls

/-- The frame of a call. -/
def sampleCall : Activation := ⟨toInt (0 : ℕ), 0x14, 0x7fff0ff0, 0x500⟩

/-- A block and a call that writes to it. -/
def beforeRead : List ToolCallback := [.recordMalloc 16, .recordMallocResult 0x10 0x1010]

def betweenReads : List ToolCallback :=
  [.stack (.processDirectCall 0x14 0x500 0x7fff0ff0), .recordMemWrite 0x16 0x1010,
    .stack (.processReturn 0x18 0x7fff0fe8)]

/-- What the recorder sees when one instruction reads the block before and after the call. -/
def sampleCallsSeen : List Callback :=
  [.malloc 16, .mallocResult 0x10 0x1010 [], .memRead 0x12 0x1018 [],
    .memWrite 0x16 0x1010 [sampleCall], .memRead 0x12 0x101c []]

lemma sampleCallsSeen_constructs : ∃ t, Constructs ⟨'?', 0⟩ ⟨[], 0, 0⟩ goodLines
    (traceText noSymbols (Recorder.run sampleCallsSeen).trace) t := by
  have hips : ∀ r ∈ (Recorder.run sampleCallsSeen).trace,
      r.ips.dropLast = [] ∨ ∃ a ∈ r.ips.dropLast, 0x8 ≤ a ∧ a < 0x20 := by decide
  exact constructs_of_constructible _
    ((constructible_recorded_iff (by decide) (by decide) (by decide)).mpr
      ⟨goodTrace_constructible.header, ⟨0x10, 0x1010, _, .tail _ (.head _)⟩, by decide,
        fun r hr => stackKnown_goodLines (hips r hr)⟩)

theorem sampleCalls_shareContext : ∃ t, Constructs ⟨'?', 0⟩ ⟨[], 0, 0⟩ goodLines
      (traceText noSymbols (Recorder.run sampleCallsSeen).trace) t ∧
    ∃ context, 1 ∈ t.byContext context ∧ 3 ∈ t.byContext context := by
  obtain ⟨t, ht⟩ := sampleCallsSeen_constructs
  have hrun : Tool.run noSymbols (beforeRead ++ .recordMemRead 0x12 0x1018 ::
      (betweenReads ++ .recordMemRead 0x12 0x101c :: []))
        = .ok ⟨.init, Recorder.run sampleCallsSeen⟩ := rfl
  have hfirst : Prints noSymbols beforeRead (.recordMemRead 0x12 0x1018)
      ⟨.init, Recorder.run (sampleCallsSeen.take 2)⟩ 1 :=
    ⟨rfl, by decide, fun s' h => by cases h; decide⟩
  have hsecond : Prints noSymbols (beforeRead ++ .recordMemRead 0x12 0x1018 :: betweenReads)
      (.recordMemRead 0x12 0x101c) ⟨.init, Recorder.run (sampleCallsSeen.take 4)⟩ 3 :=
    ⟨rfl, by decide, fun s' h => by cases h; decide⟩
  have hcalls : ReturnedCalls 8 0x7fff0ff0 (betweenReads.filterMap ToolCallback.onStack) :=
    @ReturnedCalls.frame 8 _ _ _ _ _ [] _ rfl (by decide) (by decide) .nil .nil
  exact ⟨t, ht, completedCalls_shareContext (by decide) hrun (by decide) ht hfirst hsecond rfl rfl
    (by simp [CallStack.init]) hcalls⟩

end PerVERT
