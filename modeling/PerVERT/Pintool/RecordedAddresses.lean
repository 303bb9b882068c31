import PerVERT.Pintool.Recorder

/-!
# The addresses of a recorded trace

`remapAddresses` looks up every address of the trace among the regions it has merged, and asserts
that it is in one: "Control should never reach here!".  The tool prints an access only inside a
location it holds active, and a free only of one; and it has printed an M record of every location
it ever held, also of one written over or freed since.

* `ResultsFit` — no block that `malloc` returned goes past the last address.
* `Recorded records events` — how the map of the tool and the events of its records hang together.
* **`recorded_run`** — they do after any callbacks, whether or not the index accepts the events.
* **`recorded_inOneRegion`** — so every address lies in exactly one region, and the assertion is
  never reached.
-/

namespace PerVERT

/-! ## What a callback prints -/

/-- The result of `malloc` plus the request stays below `2 ^ 64`. -/
def Recorder.ResultFits (r : Recorder) : Callback → Prop
  | .mallocResult _ addr _ => addr.toNat + r.request.toNat < 2 ^ 64
  | _ => True

instance (r : Recorder) : ∀ c : Callback, Decidable (r.ResultFits c)
  | .mallocResult _ _ _ => inferInstanceAs (Decidable (_ < _))
  | .memRead _ _ _ | .memWrite _ _ _ | .malloc _ | .free _ _ _ => inferInstanceAs (Decidable True)

/-- So do all of them. -/
def ResultsFit (cs : List Callback) : Prop :=
  EachStep (fun before c => (Recorder.run before).ResultFits c) cs

instance (cs : List Callback) : Decidable (ResultsFit cs) :=
  inferInstanceAs (Decidable (EachStep _ cs))

/-- What a record is printed on, given the locations active before. -/
def RecordBody.Vetted (records : Std.TreeMap UInt64 UInt64) : RecordBody → Prop
  | .M addr endAddr => addr ≤ endAddr
  | .F addr => addr ∈ records
  | .R addr | .W addr => InBlock records.toList addr

/-- **What a callback prints** has passed the checks of the tool. -/
lemma step_vetted {r : Recorder} {c : Callback} (hfit : r.ResultFits c) :
    ((r.step c).trace = r.trace ∧ (r.step c).records = r.records) ∨
      ∃ record : Record, (r.step c).trace = r.trace ++ [record] ∧
        (r.step c).records = record.body.update r.records ∧ record.body.Vetted r.records := by
  cases c with
  | memRead ip addr stack =>
      simp only [Recorder.step, Recorder.recordMemRead, Recorder.recordAccess]
      split_ifs with hactive
      · exact Or.inr ⟨⟨.R addr, ip, stack⟩, rfl, rfl, active_iff.mp hactive⟩
      · exact Or.inl ⟨rfl, rfl⟩
  | memWrite ip addr stack =>
      simp only [Recorder.step, Recorder.recordMemWrite, Recorder.recordAccess]
      split_ifs with hactive
      · exact Or.inr ⟨⟨.W addr, ip, stack⟩, rfl, rfl, active_iff.mp hactive⟩
      · exact Or.inl ⟨rfl, rfl⟩
  | malloc size => exact Or.inl ⟨rfl, rfl⟩
  | mallocResult ip addr stack =>
      refine Or.inr ⟨⟨.M addr (addr + r.request), ip, stack⟩, rfl, rfl, ?_⟩
      have hsum : addr.toNat + r.request.toNat < 2 ^ 64 := hfit
      show addr ≤ addr + r.request
      rw [UInt64.le_iff_toNat_le, UInt64.toNat_add, Nat.mod_eq_of_lt hsum]
      exact Nat.le_add_right _ _
  | free ip addr stack =>
      simp only [Recorder.step, Recorder.recordFree]
      split_ifs with hknown
      · exact Or.inr ⟨⟨.F addr, ip, stack⟩, rfl, rfl, hknown⟩
      · exact Or.inl ⟨rfl, rfl⟩

/-! ## The map of the tool and the M records -/

section MallocsOf

variable {events : List Event} {ev : Event}

lemma mallocsOf_append_malloc (h : ev.type = .MALLOC) :
    mallocsOf (events ++ [ev]) = mallocsOf events ++ [(ev.arg1, ev.arg2)] := by
  simp [mallocsOf, h]

lemma mallocsOf_append_of_ne (h : ev.type ≠ .MALLOC) :
    mallocsOf (events ++ [ev]) = mallocsOf events := by
  simp [mallocsOf, h]

lemma Event.InIntervals.append {ivs ivs' : List (UInt64 × UInt64)} (h : ev.InIntervals ivs) :
    ev.InIntervals (ivs ++ ivs') := by
  have hmono : ∀ a, Covered ivs a → Covered (ivs ++ ivs') a :=
    fun a ⟨p, hp, ha⟩ => ⟨p, List.mem_append_left _ hp, ha⟩
  exact ⟨hmono _ h.1, fun htype => hmono _ (h.2 htype)⟩

end MallocsOf

/-- The events have a MALLOC for every active location, none inverted, and all their addresses lie
in the intervals of these. -/
structure Recorded (records : Std.TreeMap UInt64 UInt64) (events : List Event) : Prop where
  wellFormed : WellFormed (mallocsOf events)
  active : ∀ block ∈ records.toList, block ∈ mallocsOf events
  inside : ∀ ev ∈ events, ev.InIntervals (mallocsOf events)

namespace Recorded

variable {records : Std.TreeMap UInt64 UInt64} {events : List Event} {ev : Event}

lemma nil : Recorded {} [] :=
  ⟨by simp [WellFormed, mallocsOf], by simp, by simp⟩

/-- A new block covers itself, and takes nothing away. -/
lemma append_malloc (h : Recorded records events) (htype : ev.type = .MALLOC)
    (hle : ev.arg1 ≤ ev.arg2) :
    Recorded (records.insert ev.arg1 ev.arg2) (events ++ [ev]) := by
  have hself : ∀ a, ev.arg1 ≤ a → a ≤ ev.arg2 → Covered (mallocsOf (events ++ [ev])) a :=
    fun a h₁ h₂ => ⟨(ev.arg1, ev.arg2), by simp [mallocsOf_append_malloc htype], h₁, h₂⟩
  constructor
  · intro p hp
    rw [mallocsOf_append_malloc htype] at hp
    rcases List.mem_append.mp hp with hp | hp
    · exact h.wellFormed p hp
    · rw [List.mem_singleton.mp hp]
      exact hle
  · intro block hblock
    rw [mallocsOf_append_malloc htype, List.mem_append, List.mem_singleton]
    rw [mem_toList_iff, Std.TreeMap.getElem?_insert] at hblock
    split_ifs at hblock with hkey
    · rw [Std.LawfulEqOrd.compare_eq_iff_eq] at hkey
      exact Or.inr (Prod.ext hkey.symm (Option.some.inj hblock).symm)
    · exact Or.inl (h.active block ((mem_toList_iff _ _).mpr hblock))
  · intro e he
    rcases List.mem_append.mp he with he | he
    · rw [mallocsOf_append_malloc htype]
      exact (h.inside e he).append
    · rw [List.mem_singleton.mp he]
      exact ⟨hself _ (le_refl _) hle, fun _ => hself _ hle (le_refl _)⟩

/-- An event of another type, inside a block ever allocated. -/
lemma append_of_ne (h : Recorded records events) (htype : ev.type ≠ .MALLOC)
    (hcov : Covered (mallocsOf events) ev.arg1) : Recorded records (events ++ [ev]) := by
  have hsame := @mallocsOf_append_of_ne events ev htype
  refine ⟨hsame ▸ h.wellFormed, hsame ▸ h.active, ?_⟩
  intro e he
  rw [hsame]
  rcases List.mem_append.mp he with he | he
  · exact h.inside e he
  · rw [List.mem_singleton.mp he]
    exact ⟨hcov, fun hm => absurd hm htype⟩

lemma erase (h : Recorded records events) (addr : UInt64) :
    Recorded (records.erase addr) events := by
  refine ⟨h.wellFormed, fun block hblock => ?_, h.inside⟩
  rw [mem_toList_iff, Std.TreeMap.getElem?_erase] at hblock
  split_ifs at hblock with hkey
  exact h.active block ((mem_toList_iff _ _).mpr hblock)

/-- An address of an active location is one of a MALLOC. -/
lemma covered_of_inBlock (h : Recorded records events) {addr : UInt64}
    (hin : InBlock records.toList addr) : Covered (mallocsOf events) addr := by
  obtain ⟨block, hblock, hb, he⟩ := hin
  exact ⟨block, h.active block hblock, hb, le_of_lt he⟩

lemma covered_of_mem (h : Recorded records events) {addr : UInt64} (hin : addr ∈ records) :
    Covered (mallocsOf events) addr := by
  obtain ⟨endAddr, hend⟩ := Option.isSome_iff_exists.mp
    (Std.TreeMap.mem_iff_isSome_getElem?.mp hin)
  have hblock := h.active (addr, endAddr) ((mem_toList_iff _ _).mpr hend)
  exact ⟨_, hblock, le_refl _, h.wellFormed _ hblock⟩

/-- **One record** keeps the map and the M records together. -/
lemma step (h : Recorded records events) {body : RecordBody} (hvetted : body.Vetted records)
    (hev : body.Matches ev) : Recorded (body.update records) (events ++ [ev]) := by
  cases body with
  | M addr endAddr =>
      obtain ⟨htype, rfl, rfl⟩ := hev
      exact h.append_malloc htype hvetted
  | F addr =>
      obtain ⟨htype, rfl⟩ := hev
      exact (h.append_of_ne (by simp [htype]) (h.covered_of_mem hvetted)).erase ev.arg1
  | R addr | W addr =>
      obtain ⟨htype, rfl⟩ := hev
      exact h.append_of_ne (by simp [htype]) (h.covered_of_inBlock hvetted)

end Recorded

/-- **After any callbacks** the map and the events hang together. -/
theorem recorded_run {cs : List Callback} (hfit : ResultsFit cs) : ∀ {events : List Event},
    MatchTrace (Recorder.run cs).trace events → Recorded (Recorder.run cs).records events := by
  induction cs using List.reverseRecOn with
  | nil =>
      intro events hmatch
      obtain rfl : events = [] := List.forall₂_nil_left_iff.mp hmatch
      exact Recorded.nil
  | append_singleton cs c ih =>
      intro events hmatch
      obtain ⟨hfit, hc⟩ := eachStep_append.mp hfit
      rw [Recorder.run_append] at hmatch ⊢
      rcases step_vetted hc with ⟨htrace, hrecords⟩ | ⟨record, htrace, hrecords, hvetted⟩
      · rw [htrace] at hmatch
        rw [hrecords]
        exact ih hfit hmatch
      · rw [htrace] at hmatch
        obtain ⟨events, ev, rfl, hmatch, hev⟩ := matchTrace_append hmatch
        rw [hrecords]
        exact (ih hfit hmatch).step hvetted hev

/-! ## The assertion -/

section Faults

variable {cacheLine : UInt64} {mallocs : List (UInt64 × UInt64)} {f : Fault}

lemma intAdd_fault {a b : ℤ} (h : intAdd a b = .error f) : f = .signedOverflow := by
  rw [intAdd] at h
  split_ifs at h
  exact (Except.error.inj h).symm

lemma bump_fault {regions : Std.TreeMap UInt64 ℤ} {k : UInt64} {d : ℤ}
    (h : bump regions k d = .error f) : f = .signedOverflow := by
  rw [bump] at h
  split_ifs at h
  · rcases checked_bind_eq_error.mp h with h | ⟨_, -, h⟩
    · exact intAdd_fault h
    · cases h
  · cases h

lemma countRegions_fault : ∀ {mallocs : List (UInt64 × UInt64)} {regions : Std.TreeMap UInt64 ℤ},
    countRegions mallocs regions = .error f → f = .signedOverflow
  | (b, e) :: mallocs, regions, h => by
      rw [countRegions] at h
      rcases checked_bind_eq_error.mp h with h | ⟨_, -, h⟩
      · exact bump_fault h
      · rcases checked_bind_eq_error.mp h with h | ⟨_, -, h⟩
        · exact bump_fault h
        · exact countRegions_fault h

lemma mergeLoop_fault : ∀ {es : List (UInt64 × ℤ)} {n : ℤ} {first : UInt64}
    {merged : Std.TreeMap UInt64 UInt64}, mergeLoop es n first merged = .error f →
    f = .signedOverflow
  | (p, c) :: es, n, first, merged, h => by
      rw [mergeLoop] at h
      rcases checked_bind_eq_error.mp h with h | ⟨_, -, h⟩
      · exact intAdd_fault h
      · exact mergeLoop_fault h

/-- Nothing is asserted before the rewriting loop. -/
lemma addressMap_fault (h : addressMap cacheLine mallocs = .error f) (msg : String) :
    f ≠ .assertion msg := by
  rcases checked_bind_eq_error.mp h with h | ⟨regions, -, h⟩
  · have hoverflow : f = .signedOverflow := by
      rcases checked_bind_eq_error.mp h with h | ⟨_, -, h⟩
      · exact countRegions_fault h
      · exact mergeLoop_fault h
    simp [hoverflow]
  · rcases checked_bind_eq_error.mp h with h | ⟨_, -, h⟩
    · unfold layoutRegions at h
      split at h
      · cases h; simp
      · split_ifs at h; cases h; simp
    · cases h

/-- With every address inside a MALLOC, the rewriting loop asserts nothing either. -/
lemma remapAddresses_fault {t : Trace} (hwf : WellFormed t.mallocIntervals)
    (hinside : ∀ e ∈ t.events, e.InIntervals t.mallocIntervals)
    (h : t.remapAddresses = .error f) (msg : String) : f ≠ .assertion msg := by
  cases hm : addressMap t.cacheLine t.mallocIntervals with
  | error g =>
      rw [Trace.remapAddresses, hm] at h
      cases h
      exact addressMap_fault hm msg
  | ok m =>
      have hspanned : ∀ a, Covered t.mallocIntervals a →
          ∃ a', remapAddress a m.regions m.offsets = .ok a' := fun a ha =>
        remapAddress_returns_iff.mpr ((addressMap_spanned hm a).mpr
          ((spanned_iff_covered hwf a).mpr ha))
      obtain ⟨events, hevents⟩ := checked_forall₂_returns_iff.mpr fun e he => by
        obtain ⟨a₁, h₁⟩ := hspanned e.arg1 (hinside e he).1
        by_cases htype : e.type = .MALLOC
        · obtain ⟨a₂, h₂⟩ := hspanned e.arg2 ((hinside e he).2 htype)
          exact ⟨_, remapEvent_eq_ok.mpr ⟨a₁, h₁, by rw [if_pos htype]; exact ⟨a₂, h₂, rfl⟩⟩⟩
        · exact ⟨_, remapEvent_eq_ok.mpr ⟨a₁, h₁, by rw [if_neg htype]⟩⟩
      rw [remapAddresses_eq_ok.mpr ⟨m, hm, events, hevents, rfl⟩] at h
      cases h

end Faults

/-- Exactly one of the merged regions holds the address, its bounds included. -/
def InOneRegion (merged : Std.TreeMap UInt64 UInt64) (a : UInt64) : Prop :=
  ∃! r, r ∈ merged.toList ∧ r.1 ≤ a ∧ a ≤ r.2

/-- **Every address the tool writes lies in exactly one region**, and the assertion of
`remapAddress` is not reached.  The tool prints an access only inside an active location, and frees
only begins of these, so the merged regions cover what it prints.  The first part is about any
events the records tell, also where the index rejects them. -/
theorem recorded_inOneRegion (cs : List Callback) (hfit : ResultsFit cs) {p : Parsed}
    (hmatch : MatchTrace (Recorder.run cs).trace p.events) :
    (∀ merged, mergedRegions (mallocsOf p.events) = .ok merged → ∀ e ∈ p.events,
      InOneRegion merged e.arg1 ∧ (e.type = .MALLOC → InOneRegion merged e.arg2)) ∧
    ∀ cacheLine t, (Trace.ofParsed p cacheLine).indexTraceFile = .ok t →
      t.events = p.events ∧ t.mallocIntervals = mallocsOf p.events ∧
        t.remapAddresses ≠ .error (.assertion "Control should never reach here!") := by
  have hrec := recorded_run hfit hmatch
  constructor
  · intro merged hmerged e he
    obtain ⟨hsep, hcov, -⟩ := mergedRegions_spec hmerged hrec.wellFormed
    have hone : ∀ a, Covered (mallocsOf p.events) a → InOneRegion merged a :=
      fun a ha => hsep.existsUnique ((hcov a).mpr ha)
    exact ⟨hone _ (hrec.inside e he).1, fun htype => hone _ ((hrec.inside e he).2 htype)⟩
  · intro cacheLine t hindex
    obtain ⟨-, rfl⟩ := indexTraceFile_eq_ok.mp hindex
    have hmallocs := @mallocIntervals_indexedTrace p cacheLine
    refine ⟨rfl, hmallocs, fun herror => ?_⟩
    exact remapAddresses_fault (hmallocs ▸ hrec.wellFormed) (hmallocs ▸ hrec.inside) herror _ rfl

/-- A block handed out twice without a free, one that failed, and accesses at their ends. -/
def overwrittenBlock : List Callback :=
  [.malloc 16, .mallocResult 0x400100 0x1010 [], .memRead 0x400110 0x101f [],
    .memWrite 0x400120 0x1020 [], .malloc 0, .mallocResult 0x400100 0x1010 [],
    .memRead 0x400110 0x1018 [], .free 0x400130 0x1010 [], .malloc 64,
    .mallocResult 0x400100 0 []]

/-- The events of its records: the index takes the second block for a duplicate. -/
def overwrittenBlockParsed : Parsed where
  okay := true
  locations := []
  contexts := fun _ => some []
  events := [⟨0, .MALLOC, 0x1010, 0x1020, []⟩, ⟨1, .READ, 0x101f, 0x1020, []⟩,
    ⟨2, .MALLOC, 0x1010, 0x1010, []⟩, ⟨3, .FREE, 0x1010, 0x1010, []⟩, ⟨4, .MALLOC, 0, 64, []⟩]

theorem overwrittenBlock_inOneRegion :
    (∀ merged, mergedRegions (mallocsOf overwrittenBlockParsed.events) = .ok merged →
      ∀ e ∈ overwrittenBlockParsed.events,
        InOneRegion merged e.arg1 ∧ (e.type = .MALLOC → InOneRegion merged e.arg2)) ∧
    ∀ cacheLine t, (Trace.ofParsed overwrittenBlockParsed cacheLine).indexTraceFile = .ok t →
      t.events = overwrittenBlockParsed.events ∧
        t.mallocIntervals = mallocsOf overwrittenBlockParsed.events ∧
        t.remapAddresses ≠ .error (.assertion "Control should never reach here!") :=
  recorded_inOneRegion overwrittenBlock (by decide) (by decide)

end PerVERT
