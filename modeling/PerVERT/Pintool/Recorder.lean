import PerVERT.Backend.Index
import PerVERT.Pintool.CallStack

/-!
# The recorder of the pin tool

The tool's analysis routines around `malloc`, `free` and memory accesses keep a map of the
locations currently active and print a record for each event the backend is to see.

* `Recorder`, `Recorder.step`, `Recorder.run` — the routines, one callback after the other.
* `RecordBody.Matches` — an event of the backend says what a record says.
* **`records_eq_live`** — after any callbacks whose records the backend's index accepts, the map
  of the recorder is the live map of the index.
* **`replay_records`** — hence every snapshot the index takes is the recorder's map at the time it
  emitted that record.
-/

namespace PerVERT

/-! ## The analysis routines -/

/-- What a record says, by its letter. -/
inductive RecordBody
  | M (addr endAddr : UInt64)
  | F (addr : UInt64)
  | R (addr : UInt64)
  | W (addr : UInt64)
  deriving DecidableEq, Repr

/-- A record of the trace file: what it says, the instruction pointer and the call stack. -/
structure Record where
  body : RecordBody
  ip : UInt64
  stack : List Activation
  deriving DecidableEq, Repr

/-- The globals of the tool that the routines use. -/
structure Recorder where
  /-- The last size request passed to malloc. -/
  request : UInt64
  /-- All currently active heap locations. -/
  records : Std.TreeMap UInt64 UInt64
  /-- What has been printed. -/
  trace : List Record

/-- The globals before the program starts. -/
def Recorder.init : Recorder := ⟨0, {}, []⟩

/-- The address lies in an active location. -/
def Recorder.active (r : Recorder) (addr : UInt64) : Bool :=
  r.records.toList.any fun block => block.1 ≤ addr ∧ addr < block.2

/-- Print a record. -/
def Recorder.print (r : Recorder) (body : RecordBody) (ip : UInt64) (stack : List Activation) :
    Recorder :=
  { r with trace := r.trace ++ [⟨body, ip, stack⟩] }

/-- Print a record if the address is in a valid malloc'ed region. -/
def Recorder.recordAccess (body : UInt64 → RecordBody) (r : Recorder) (ip addr : UInt64)
    (stack : List Activation) : Recorder :=
  if r.active addr then r.print (body addr) ip stack else r

/-- `RecordMemRead`. -/
def Recorder.recordMemRead : Recorder → UInt64 → UInt64 → List Activation → Recorder :=
  Recorder.recordAccess .R

/-- `RecordMemWrite`. -/
def Recorder.recordMemWrite : Recorder → UInt64 → UInt64 → List Activation → Recorder :=
  Recorder.recordAccess .W

/-- `RecordMalloc`. -/
def Recorder.recordMalloc (r : Recorder) (size : UInt64) : Recorder :=
  { r with request := size }

/-- `RecordMallocResult`. -/
def Recorder.recordMallocResult (r : Recorder) (ip addr : UInt64) (stack : List Activation) :
    Recorder :=
  let endAddr := addr + r.request
  { r with records := r.records.insert addr endAddr }.print (.M addr endAddr) ip stack

/-- `RecordFree`. -/
def Recorder.recordFree (r : Recorder) (ip addr : UInt64) (stack : List Activation) : Recorder :=
  if r.records.contains addr then
    { r with records := r.records.erase addr }.print (.F addr) ip stack
  else r

/-- The callbacks.  `stack` is what `callStack` holds at the time. -/
inductive Callback
  | memRead (ip addr : UInt64) (stack : List Activation)
  | memWrite (ip addr : UInt64) (stack : List Activation)
  | malloc (size : UInt64)
  | mallocResult (ip addr : UInt64) (stack : List Activation)
  | free (ip addr : UInt64) (stack : List Activation)

/-- One callback. -/
def Recorder.step (r : Recorder) : Callback → Recorder
  | .memRead ip addr stack => r.recordMemRead ip addr stack
  | .memWrite ip addr stack => r.recordMemWrite ip addr stack
  | .malloc size => r.recordMalloc size
  | .mallocResult ip addr stack => r.recordMallocResult ip addr stack
  | .free ip addr stack => r.recordFree ip addr stack

/-- Callbacks one after the other, from the start of the program. -/
def Recorder.run (cs : List Callback) : Recorder :=
  cs.foldl Recorder.step .init

lemma Recorder.run_append (cs : List Callback) (c : Callback) :
    Recorder.run (cs ++ [c]) = (Recorder.run cs).step c := by
  simp [Recorder.run]

/-! ## What a callback can do -/

/-- What printing a record goes with in the map of locations. -/
def RecordBody.update (records : Std.TreeMap UInt64 UInt64) :
    RecordBody → Std.TreeMap UInt64 UInt64
  | .M addr endAddr => records.insert addr endAddr
  | .F addr => records.erase addr
  | .R _ | .W _ => records

/-- An address some block contains, its end excluded. -/
def InBlock (blocks : List (UInt64 × UInt64)) (addr : UInt64) : Prop :=
  ∃ block ∈ blocks, block.1 ≤ addr ∧ addr < block.2

lemma active_iff {r : Recorder} {addr : UInt64} :
    r.active addr = true ↔ InBlock r.records.toList addr := by
  simp only [Recorder.active, List.any_eq_true, decide_eq_true_eq, InBlock]

/-- **What a callback can do.**  It prints nothing and leaves the map alone, or it prints one
record and updates the map accordingly; an access is printed only inside an active location. -/
lemma step_cases (r : Recorder) (c : Callback) :
    ((r.step c).trace = r.trace ∧ (r.step c).records = r.records) ∨
      ∃ record : Record, (r.step c).trace = r.trace ++ [record] ∧
        (r.step c).records = record.body.update r.records ∧
        (∀ addr, record.body = .R addr ∨ record.body = .W addr →
          InBlock r.records.toList addr) := by
  have haccess : ∀ (body : UInt64 → RecordBody) ip addr stack,
      (∀ records, (body addr).update records = records) →
      (∀ a, body addr = .R a ∨ body addr = .W a → a = addr) →
      ((r.recordAccess body ip addr stack).trace = r.trace ∧
        (r.recordAccess body ip addr stack).records = r.records) ∨
      ∃ record : Record, (r.recordAccess body ip addr stack).trace = r.trace ++ [record] ∧
        (r.recordAccess body ip addr stack).records = record.body.update r.records ∧
        (∀ a, record.body = .R a ∨ record.body = .W a → InBlock r.records.toList a) := by
    intro body ip addr stack hupdate haddr
    rw [Recorder.recordAccess]
    split_ifs with h
    · refine Or.inr ⟨⟨body addr, ip, stack⟩, rfl, (hupdate _).symm, fun a ha => ?_⟩
      rw [haddr a ha]
      exact active_iff.mp h
    · exact Or.inl ⟨rfl, rfl⟩
  cases c with
  | memRead ip addr stack => exact haccess .R ip addr stack (fun _ => rfl) (by simp)
  | memWrite ip addr stack => exact haccess .W ip addr stack (fun _ => rfl) (by simp)
  | malloc size => exact Or.inl ⟨rfl, rfl⟩
  | mallocResult ip addr stack =>
      exact Or.inr ⟨⟨.M addr (addr + r.request), ip, stack⟩, rfl, rfl, by simp⟩
  | free ip addr stack =>
      simp only [Recorder.step, Recorder.recordFree]
      split_ifs
      · exact Or.inr ⟨⟨.F addr, ip, stack⟩, rfl, rfl, by simp⟩
      · exact Or.inl ⟨rfl, rfl⟩

/-! ## Records and events -/

/-- The event says what the record says. -/
def RecordBody.Matches (e : Event) : RecordBody → Prop
  | .M addr endAddr => e.type = .MALLOC ∧ e.arg1 = addr ∧ e.arg2 = endAddr
  | .F addr => e.type = .FREE ∧ e.arg1 = addr
  | .R addr => e.type = .READ ∧ e.arg1 = addr
  | .W addr => e.type = .WRITE ∧ e.arg1 = addr

instance (e : Event) : ∀ body : RecordBody, Decidable (body.Matches e)
  | .M _ _ => inferInstanceAs (Decidable (_ ∧ _ ∧ _))
  | .F _ | .R _ | .W _ => inferInstanceAs (Decidable (_ ∧ _))

/-- The events are those of the records, one by one. -/
def MatchTrace (records : List Record) (events : List Event) : Prop :=
  List.Forall₂ (fun r e => r.body.Matches e) records events

instance (records : List Record) (events : List Event) : Decidable (MatchTrace records events) :=
  inferInstanceAs (Decidable (List.Forall₂ _ _ _))

lemma matchTrace_append {records : List Record} {record : Record} {events : List Event}
    (h : MatchTrace (records ++ [record]) events) :
    ∃ events' e, events = events' ++ [e] ∧ MatchTrace records events' ∧ record.body.Matches e :=
  forall₂_snoc_left.mp h

/-- The active locations are the live MALLOCs of the events. -/
def RecordsLive (records : Std.TreeMap UInt64 UInt64) (events : List Event) : Prop :=
  ∀ b e : UInt64, records[b]? = some e ↔ ∃ i x, LiveMalloc events i x ∧ x.arg1 = b ∧ x.arg2 = e

/-- **One record** that the index accepts keeps the two maps in agreement. -/
lemma RecordsLive.append {records : Std.TreeMap UInt64 UInt64} {events : List Event} {ev : Event}
    {body : RecordBody} (h : RecordsLive records events) (hacc : Accepted (events ++ [ev]))
    (hev : body.Matches ev) : RecordsLive (body.update records) (events ++ [ev]) := by
  obtain ⟨hacc, hfresh⟩ := accepted_append.mp hacc
  intro b e
  cases body with
  | M addr endAddr =>
      obtain ⟨htype, rfl, rfl⟩ := hev
      have hnone : (live events)[ev.arg1]? = none :=
        Std.TreeMap.getElem?_eq_none (hfresh.2 htype)
      simp only [liveMalloc_append_malloc htype, RecordBody.update,
        Std.TreeMap.getElem?_insert, Std.LawfulEqOrd.compare_eq_iff_eq]
      split_ifs with hb
      · constructor
        · intro h
          exact ⟨_, ev, Or.inr ⟨rfl, rfl⟩, hb, Option.some.inj h⟩
        · rintro ⟨i, x, hx | ⟨-, rfl⟩, hxb, hxe⟩
          · have hlive := (live_getElem? hacc).mpr ⟨x, hx, hxb.trans hb.symm⟩
            rw [hnone] at hlive
            cases hlive
          · rw [hxe]
      · rw [h b e]
        refine exists_congr fun i => exists_congr fun x =>
          and_congr_left fun hxb => ⟨Or.inl, ?_⟩
        rintro (hx | ⟨-, rfl⟩)
        · exact hx
        · exact absurd hxb.1 hb
  | F addr =>
      obtain ⟨htype, rfl⟩ := hev
      simp only [liveMalloc_append_free htype, RecordBody.update,
        Std.TreeMap.getElem?_erase, Std.LawfulEqOrd.compare_eq_iff_eq]
      split_ifs with hb
      · constructor
        · intro h
          cases h
        · rintro ⟨i, x, ⟨-, hne⟩, hxb, -⟩
          exact absurd (hb.trans hxb.symm) hne
      · rw [h b e]
        refine exists_congr fun i => exists_congr fun x =>
          and_congr_left fun hxb => ⟨fun hx => ?_, And.left⟩
        exact ⟨hx, fun heq => hb (heq.trans hxb.1)⟩
  | R addr | W addr =>
      rw [RecordBody.update, h b e]
      simp [liveMalloc_append_of_ne, hev.1]

/-- **The two maps agree** after any callbacks. -/
theorem records_eq_live {cs : List Callback} : ∀ {events : List Event},
    MatchTrace (Recorder.run cs).trace events → Accepted events →
      RecordsLive (Recorder.run cs).records events := by
  induction cs using List.reverseRecOn with
  | nil =>
      intro events hmatch _ b e
      obtain rfl : events = [] := List.forall₂_nil_left_iff.mp hmatch
      constructor
      · intro h
        simp [Recorder.run, Recorder.init] at h
      · rintro ⟨i, x, hx, -⟩
        simpa using hx.at_i
  | append_singleton cs c ih =>
      intro events hmatch hacc
      rw [Recorder.run_append] at hmatch ⊢
      rcases step_cases (Recorder.run cs) c with ⟨htrace, hrecords⟩ | ⟨record, htrace, hrecords, -⟩
      · rw [htrace] at hmatch
        rw [hrecords]
        exact ih hmatch hacc
      · rw [htrace] at hmatch
        obtain ⟨events, ev, rfl, hmatch, hev⟩ := matchTrace_append hmatch
        rw [hrecords]
        exact (ih hmatch (accepted_append.mp hacc).1).append hacc hev

lemma mem_live_iff {cs : List Callback} {events : List Event}
    (hmatch : MatchTrace (Recorder.run cs).trace events) (hacc : Accepted events) {b : UInt64} :
    b ∈ live events ↔ b ∈ (Recorder.run cs).records := by
  rw [Std.TreeMap.mem_iff_isSome_getElem?, Std.TreeMap.mem_iff_isSome_getElem?,
    Option.isSome_iff_exists, Option.isSome_iff_exists]
  constructor
  · rintro ⟨i, hi⟩
    obtain ⟨x, hx, hb⟩ := (live_getElem? hacc).mp hi
    exact ⟨x.arg2, (records_eq_live hmatch hacc b x.arg2).mpr ⟨i, x, hx, hb, rfl⟩⟩
  · rintro ⟨e, he⟩
    obtain ⟨i, x, hx, hb, -⟩ := (records_eq_live hmatch hacc b e).mp he
    exact ⟨i, (live_getElem? hacc).mpr ⟨x, hx, hb⟩⟩

/-! ## Every snapshot -/

/-- The callback at position `p` printed the record at position `k`. -/
def EmittedAt (cs : List Callback) (p k : ℕ) : Prop :=
  p < cs.length ∧ (Recorder.run (cs.take p)).trace.length = k ∧
    (Recorder.run (cs.take (p + 1))).trace.length = k + 1

lemma run_take_succ {cs : List Callback} {p : ℕ} (hp : p < cs.length) :
    Recorder.run (cs.take (p + 1)) = (Recorder.run (cs.take p)).step cs[p] := by
  rw [List.take_add_one, List.getElem?_eq_getElem hp]
  exact Recorder.run_append _ _

lemma trace_of_take (cs : List Callback) (p : ℕ) :
    (Recorder.run (cs.take p)).trace <+: (Recorder.run cs).trace := by
  induction cs using List.reverseRecOn with
  | nil => simp
  | append_singleton cs c ih =>
      rcases Nat.lt_or_ge cs.length p with hp | hp
      · rw [List.take_of_length_le (by simp; omega)]
      · rw [List.take_append_of_le_length hp, Recorder.run_append]
        refine ih.trans ?_
        rcases step_cases (Recorder.run cs) c with ⟨htrace, -⟩ | ⟨record, htrace, -⟩
        · rw [htrace]
        · rw [htrace]; exact List.prefix_append _ _

lemma exists_emittedAt {cs : List Callback} {k : ℕ} (hk : k < (Recorder.run cs).trace.length) :
    ∃ p, EmittedAt cs p k := by
  induction cs using List.reverseRecOn with
  | nil => simp [Recorder.run, Recorder.init] at hk
  | append_singleton cs c ih =>
      rcases Nat.lt_or_ge k (Recorder.run cs).trace.length with hlt | hge
      · obtain ⟨p, hp, h₁, h₂⟩ := ih hlt
        refine ⟨p, ?_, ?_, ?_⟩
        · rw [List.length_append]; omega
        · rwa [List.take_append_of_le_length (le_of_lt hp)]
        · rwa [List.take_append_of_le_length hp]
      · rw [Recorder.run_append] at hk
        rcases step_cases (Recorder.run cs) c with ⟨htrace, -⟩ | ⟨record, htrace, -⟩
        · rw [htrace] at hk; omega
        · rw [htrace, List.length_append, List.length_singleton] at hk
          refine ⟨cs.length, by simp, ?_, ?_⟩
          · rw [List.take_left]; omega
          · rw [List.take_of_length_le (by simp), Recorder.run_append, htrace, List.length_append,
              List.length_singleton]
            omega

/-- A read back of the log keeps in step with the tool that wrote it. -/
structure ReplayAgrees (cs : List Callback) (t : Trace) : Prop where
  emitted : ∀ k, k < t.events.length → ∃ p, EmittedAt cs p k
  one_snapshot_each : t.validRegions.length = t.events.length
  /-- The snapshot of an event is the recorder's map right after it printed the record. -/
  snapshot : ∀ p k, EmittedAt cs p k → ∃ ptrs, t.validRegions[k]? = some ptrs ∧
    (pointees t.events ptrs).map (fun e => (e.arg1, e.arg2)) =
      (Recorder.run (cs.take (p + 1))).records.toList
  /-- An access that was printed lies in a block of the snapshot. -/
  inside : ∀ p k e, EmittedAt cs p k → t.events[k]? = some e → e.isAccess = true →
    InBlock (Recorder.run (cs.take (p + 1))).records.toList e.arg1
  /-- An access outside all active locations printed nothing. -/
  outside : ∀ p ip addr stack, cs[p]? = some (.memRead ip addr stack) ∨
      cs[p]? = some (.memWrite ip addr stack) →
    ¬ InBlock (Recorder.run (cs.take p)).records.toList addr →
    Recorder.run (cs.take (p + 1)) = Recorder.run (cs.take p)

/-- The blocks the events tell are the recorder's map, entry by entry. -/
lemma blocks_eq_records {cs : List Callback} {events : List Event} {n : ℕ}
    (hmatch : MatchTrace (Recorder.run cs).trace (events.take n)) (hacc : Accepted events) :
    (blocksAfter events n).map (fun e => (e.arg1, e.arg2)) = (Recorder.run cs).records.toList := by
  refine eq_of_sorted_of_mem_iff (List.pairwise_map.mpr (blocksAfter_sorted hacc n))
    (toList_sorted _) fun block => ?_
  rw [mem_toList_iff, records_eq_live hmatch (hacc.take n) _ _, List.mem_map]
  constructor
  · rintro ⟨e, he, rfl⟩
    obtain ⟨i, hi⟩ := (mem_blocksAfter hacc n e).mp he
    exact ⟨i, e, hi, rfl, rfl⟩
  · rintro ⟨i, e, hi, h₁, h₂⟩
    exact ⟨e, (mem_blocksAfter hacc n e).mpr ⟨i, hi⟩, by rw [h₁, h₂]⟩

/-- An access printed lies in a block, before and after. -/
lemma access_in_block {cs : List Callback} {events : List Event} {p k : ℕ}
    (hp : EmittedAt cs p k)
    (hmatch : MatchTrace (Recorder.run (cs.take (p + 1))).trace (events.take (k + 1))) {e : Event}
    (he : events[k]? = some e) (haccess : e.isAccess = true) :
    InBlock (Recorder.run (cs.take (p + 1))).records.toList e.arg1 := by
  obtain ⟨hlt, hbefore, hafter⟩ := hp
  have htake : events.take (k + 1) = events.take k ++ [e] := by rw [List.take_add_one, he]; rfl
  rw [run_take_succ hlt] at hafter hmatch ⊢
  rcases step_cases (Recorder.run (cs.take p)) cs[p] with
    ⟨htrace, -⟩ | ⟨record, htrace, hrecords, hin⟩
  · rw [htrace] at hafter; omega
  · rw [htrace, htake] at hmatch
    obtain ⟨_, last, heq, -, hlast⟩ := matchTrace_append hmatch
    obtain ⟨-, hlast'⟩ := List.append_inj' heq rfl
    cases hlast'
    rw [hrecords]
    cases hbody : record.body with
    | M addr endAddr | F addr =>
        rw [hbody] at hlast
        simp [Event.isAccess, hlast.1] at haccess
    | R addr | W addr =>
        rw [hbody] at hlast
        rw [hlast.2]
        exact hin addr (by simp [hbody])

/-- **The index replays the recorder.**  For every sequence of callbacks whose records the index
accepts, it passes through the states of the tool again: the snapshot of an event is the map that
the recorder held when it had printed the record.  An access that was printed lies in a block of its
snapshot, and one outside of all active locations printed nothing. -/
theorem replay_records (cs : List Callback) {p : Parsed} {cacheLine : UInt64} {t : Trace}
    (hmatch : MatchTrace (Recorder.run cs).trace p.events)
    (hindex : (Trace.ofParsed p cacheLine).indexTraceFile = .ok t) : ReplayAgrees cs t := by
  obtain ⟨hacc, rfl⟩ := indexTraceFile_eq_ok.mp hindex
  have hlen : (Recorder.run cs).trace.length = p.events.length := hmatch.length_eq
  have hmatchTake : ∀ {q k}, EmittedAt cs q k →
      MatchTrace (Recorder.run (cs.take (q + 1))).trace (p.events.take (k + 1)) := by
    intro q k hq
    have htake := List.prefix_iff_eq_take.mp (trace_of_take cs (q + 1))
    rw [hq.2.2] at htake
    rw [htake]
    exact List.forall₂_take (k + 1) hmatch
  constructor
  · exact fun k hk => exists_emittedAt (by rw [hlen]; exact hk)
  · simp [indexedTrace, indexOf, snapshots]
  · intro q k hq
    have hk : k < p.events.length := by
      have := (trace_of_take cs (q + 1)).length_le
      rw [hq.2.2, hlen] at this
      omega
    exact ⟨_, snapshots_getElem? hk, blocks_eq_records (hmatchTake hq) hacc⟩
  · intro q k e hq hk haccess
    exact access_in_block hq (hmatchTake hq) hk haccess
  · intro q ip addr stack hc hout
    have hq : q < cs.length := by
      rcases hc with hc | hc <;> exact (List.getElem?_eq_some_iff.mp hc).1
    have hinactive : ¬ (Recorder.run (cs.take q)).active addr = true :=
      fun h => hout (active_iff.mp h)
    rw [run_take_succ hq]
    rcases hc with hc | hc <;> rw [(List.getElem?_eq_some_iff.mp hc).2] <;>
      exact if_neg hinactive

/-- A block, an access inside and one outside, frees of an unknown and of the known block, and the
address used again for an empty block. -/
def reusedAddress : List Callback :=
  [.malloc 16, .mallocResult 0x400100 0x1010 [], .memRead 0x400110 0x1018 [],
    .memWrite 0x400120 0x1020 [], .free 0x400130 0x9990 [], .free 0x400130 0x1010 [], .malloc 0,
    .mallocResult 0x400100 0x1010 []]

/-- The events of its records. -/
def reusedAddressParsed : Parsed where
  okay := true
  locations := []
  contexts := fun _ => some []
  events := [⟨0, .MALLOC, 0x1010, 0x1020, []⟩, ⟨1, .READ, 0x1018, 0x1020, []⟩,
    ⟨2, .FREE, 0x1010, 0x1020, []⟩, ⟨3, .MALLOC, 0x1010, 0x1010, []⟩]

theorem reusedAddress_replay :
    ∃ t, (Trace.ofParsed reusedAddressParsed 1024).indexTraceFile = .ok t ∧
      ReplayAgrees reusedAddress t :=
  have hindex := indexTraceFile_eq_ok.mpr ⟨by decide, rfl⟩
  ⟨indexedTrace reusedAddressParsed 1024, hindex, replay_records reusedAddress (by decide) hindex⟩

end PerVERT
