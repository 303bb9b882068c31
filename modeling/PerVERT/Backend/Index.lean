import PerVERT.Backend.Remap
import PerVERT.Core.Transition
import Mathlib.Logic.Function.Basic

/-!
# `Trace::indexTraceFile`

One pass over the parsed events files each under its type and its context, and records after
each the MALLOCs still live.

* `indexEvent`, `Trace.indexTraceFile` — the pass as the code runs it.
* `Accepted` — no assertion of the pass fires.
* `live` — the map of live blocks after a list of events; `live_getElem?` says what is in it.
* **`indexEvents_eq_ok`** — the pass returns exactly on the accepted lists, and then holds, for
  every type and context, the positions of its events in order, and one snapshot per event.

All of it is by induction at the *end* of the list of events: the pass over `events ++ [e]` is
the pass over `events` followed by one step (`indexEvents_append`).
-/

namespace PerVERT

/-! ## The pass -/

/-- `map[key].push_back(i)`. -/
def pushAt {κ : Type} [DecidableEq κ] (f : κ → List ℕ) (k : κ) (i : ℕ) : κ → List ℕ :=
  Function.update f k (f k ++ [i])

/-- The local `validRegions` and the three members the pass fills. -/
structure IndexState where
  live : Std.TreeMap UInt64 ℕ
  byType : EventType → List ℕ
  byContext : Text → List ℕ
  validRegions : List (List ℕ)

/-- The body of the pass, for the event at position `i`. -/
def indexEvent (st : IndexState) (event : Event) (i : ℕ) : Checked IndexState := do
  let st := { st with byContext := pushAt st.byContext event.context i }
  let st ← match event.type with
    | .MALLOC => do
        let st := { st with byType := pushAt st.byType .MALLOC i }
        assertC (!st.live.contains event.arg1) "Duplicate malloc!"
        pure { st with live := st.live.insert event.arg1 i }
    | .FREE =>
        pure { st with
          byType := pushAt st.byType .FREE i
          live := st.live.erase event.arg1 }
    | .READ => pure { st with byType := pushAt st.byType .READ i }
    | .WRITE => pure { st with byType := pushAt st.byType .WRITE i }
    | .END => throw (.assertion "Control should never reach here!")
  pure { st with validRegions := st.validRegions ++ [st.live.toList.map Prod.snd] }

/-- The pass from empty indices. -/
def indexEvents (events : List Event) : Checked IndexState :=
  events.zipIdx.foldlM (fun st (e, i) => indexEvent st e i) ⟨{}, fun _ => [], fun _ => [], []⟩

/-- A trace just parsed: nothing is indexed yet. -/
def Trace.ofParsed (p : Parsed) (cacheLine : UInt64) : Trace where
  toParsed := p
  byType := fun _ => []
  byContext := fun _ => []
  validRegions := []
  maxAddress := 0
  cacheLine

/-- `Trace::indexTraceFile`, on a trace whose indices are still empty. -/
def Trace.indexTraceFile (t : Trace) : Checked Trace := do
  let st ← indexEvents t.events
  pure { t with
    byType := st.byType
    byContext := st.byContext
    validRegions := st.validRegions }

/-- The last two stages of the constructor; the line size defaults to 1024. -/
def Trace.load (p : Parsed) (cacheLine : UInt64) : Checked Trace := do
  let t ← (Trace.ofParsed p cacheLine).indexTraceFile
  t.remapAddresses

/-! ## Live blocks -/

/-- What an event at position `i` does to the live blocks. -/
def liveStep (live : Std.TreeMap UInt64 ℕ) (e : Event) (i : ℕ) : Std.TreeMap UInt64 ℕ :=
  match e.type with
  | .MALLOC => live.insert e.arg1 i
  | .FREE => live.erase e.arg1
  | _ => live

/-- The live blocks after a list of events: begin to position of the MALLOC. -/
def live (events : List Event) : Std.TreeMap UInt64 ℕ :=
  events.zipIdx.foldl (fun m (e, i) => liveStep m e i) {}

lemma live_append (events : List Event) (e : Event) :
    live (events ++ [e]) = liveStep (live events) e events.length := by
  simp [live, List.zipIdx_append]

/-- The MALLOC at position `i` has not been freed by the end of `events`. -/
structure LiveMalloc (events : List Event) (i : ℕ) (e : Event) : Prop where
  at_i : events[i]? = some e
  malloc : e.type = .MALLOC
  not_freed : ∀ j f, i < j → events[j]? = some f → f.type = .FREE → f.arg1 ≠ e.arg1

/-- One more event keeps the old blocks it does not free, and adds itself if it is a MALLOC. -/
lemma liveMalloc_append {events : List Event} {x e : Event} {i : ℕ} :
    LiveMalloc (events ++ [x]) i e ↔
      (LiveMalloc events i e ∧ (x.type = .FREE → x.arg1 ≠ e.arg1)) ∨
        (i = events.length ∧ e = x ∧ x.type = .MALLOC) := by
  constructor
  · intro h
    rcases getElem?_snoc.mp h.at_i with hi | ⟨rfl, rfl⟩
    · refine Or.inl ⟨⟨hi, h.malloc, fun j f hij hj => ?_⟩, fun hx => ?_⟩
      · exact h.not_freed j f hij (getElem?_snoc.mpr (Or.inl hj))
      · exact h.not_freed events.length x (lt_of_getElem? hi)
          (getElem?_snoc.mpr (Or.inr ⟨rfl, rfl⟩)) hx
    · exact Or.inr ⟨rfl, rfl, h.malloc⟩
  · rintro (⟨h, hx⟩ | ⟨rfl, rfl, hm⟩)
    · refine ⟨getElem?_snoc.mpr (Or.inl h.at_i), h.malloc, fun j f hij hj hf => ?_⟩
      rcases getElem?_snoc.mp hj with hj | ⟨rfl, rfl⟩
      · exact h.not_freed j f hij hj hf
      · exact hx hf
    · refine ⟨getElem?_snoc.mpr (Or.inr ⟨rfl, rfl⟩), hm, fun j f hij hj => ?_⟩
      have := lt_of_getElem? hj
      rw [List.length_append, List.length_singleton] at this
      omega

/-- A MALLOC adds itself, -/
lemma liveMalloc_append_malloc {events : List Event} {x e : Event} {i : ℕ}
    (hx : x.type = .MALLOC) : LiveMalloc (events ++ [x]) i e ↔
      LiveMalloc events i e ∨ (i = events.length ∧ e = x) := by
  simp [liveMalloc_append, hx]

/-- a FREE removes what begins where it points, -/
lemma liveMalloc_append_free {events : List Event} {x e : Event} {i : ℕ} (hx : x.type = .FREE) :
    LiveMalloc (events ++ [x]) i e ↔ LiveMalloc events i e ∧ x.arg1 ≠ e.arg1 := by
  simp [liveMalloc_append, hx]

/-- and nothing else changes what is live. -/
lemma liveMalloc_append_of_ne {events : List Event} {x e : Event} {i : ℕ}
    (hm : x.type ≠ .MALLOC) (hf : x.type ≠ .FREE) :
    LiveMalloc (events ++ [x]) i e ↔ LiveMalloc events i e := by
  simp [liveMalloc_append, hm, hf]

/-! ## Which lists the pass accepts -/

/-- The assertions at an event, given the live blocks before it. -/
def AcceptedEvent (m : Std.TreeMap UInt64 ℕ) (e : Event) : Prop :=
  e.type ≠ .END ∧ (e.type = .MALLOC → e.arg1 ∉ m)

instance (m : Std.TreeMap UInt64 ℕ) (e : Event) : Decidable (AcceptedEvent m e) :=
  inferInstanceAs (Decidable (_ ∧ (_ → ¬ _)))

/-- No assertion of the pass fires. -/
def Accepted (events : List Event) : Prop :=
  EachStep (fun before e => AcceptedEvent (live before) e) events

lemma Accepted.nil : Accepted [] := EachStep.nil

lemma accepted_append {events : List Event} {e : Event} :
    Accepted (events ++ [e]) ↔ Accepted events ∧ AcceptedEvent (live events) e :=
  eachStep_append

lemma Accepted.take {events : List Event} (h : Accepted events) (n : ℕ) :
    Accepted (events.take n) :=
  EachStep.take h n

/-- **What is live.**  The map holds the MALLOCs not yet freed, under their begins. -/
theorem live_getElem? : ∀ {events : List Event}, Accepted events → ∀ {b : UInt64} {i : ℕ},
    (live events)[b]? = some i ↔ ∃ e, LiveMalloc events i e ∧ e.arg1 = b := by
  intro events
  induction events using List.reverseRecOn with
  | nil =>
      intro _ b i
      constructor
      · intro h; simp [live] at h
      · rintro ⟨e, he, -⟩; simpa using he.at_i
  | append_singleton events x ih =>
      intro h b i
      obtain ⟨h, hx⟩ := accepted_append.mp h
      have ih' : ∀ {b : UInt64} {i : ℕ},
          (live events)[b]? = some i ↔ ∃ e, LiveMalloc events i e ∧ e.arg1 = b := ih h
      simp only [live_append, liveStep]
      cases htype : x.type with
      | MALLOC =>
          have hfresh : (live events)[x.arg1]? = none :=
            Std.TreeMap.getElem?_eq_none (hx.2 htype)
          simp only [liveMalloc_append_malloc htype, Std.TreeMap.getElem?_insert,
            Std.LawfulEqOrd.compare_eq_iff_eq]
          split_ifs with hb
          · constructor
            · intro hi
              exact ⟨x, Or.inr ⟨(Option.some.inj hi).symm, rfl⟩, hb⟩
            · rintro ⟨e, he | ⟨rfl, -⟩, heb⟩
              · rw [ih'.mpr ⟨e, he, heb.trans hb.symm⟩] at hfresh
                cases hfresh
              · rfl
          · rw [ih']
            refine exists_congr fun e => and_congr_left fun heb => ⟨Or.inl, ?_⟩
            rintro (he | ⟨-, rfl⟩)
            · exact he
            · exact absurd heb hb
      | FREE =>
          simp only [liveMalloc_append_free htype, Std.TreeMap.getElem?_erase,
            Std.LawfulEqOrd.compare_eq_iff_eq]
          split_ifs with hb
          · constructor
            · intro hi; cases hi
            · rintro ⟨e, ⟨-, hne⟩, heb⟩
              exact absurd (hb.trans heb.symm) hne
          · rw [ih']
            refine exists_congr fun e => and_congr_left fun heb => ⟨fun he => ?_, And.left⟩
            exact ⟨he, fun heq => hb (heq.trans heb)⟩
      | READ | WRITE | END =>
          rw [ih']
          simp [liveMalloc_append_of_ne, htype]

/-! ## What the indices hold -/

/-- The positions of the events that satisfy `p`, in order. -/
def positions (p : Event → Bool) (events : List Event) : List ℕ :=
  (events.zipIdx.filter fun ei => p ei.1).map Prod.snd

lemma positions_append (p : Event → Bool) (events : List Event) (e : Event) :
    positions p (events ++ [e]) = positions p events ++ if p e then [events.length] else [] := by
  simp only [positions, List.zipIdx_append, List.filter_append, List.map_append]
  by_cases h : p e <;> simp [h]

/-- The positions depend on what `p` says of the events only. -/
lemma positions_map (p : Event → Bool) (g : Event → Event) (events : List Event) :
    positions p (events.map g) = positions (fun e => p (g e)) events := by
  simp only [positions, List.zipIdx_map, List.filter_map, List.map_map]
  rfl

lemma positions_congr {p q : Event → Bool} {events : List Event} (h : ∀ e ∈ events, p e = q e) :
    positions p events = positions q events := by
  rw [positions, positions]
  congr 1
  refine List.filter_congr fun ei hei => h ei.1 ?_
  rw [← List.zipIdx_map_fst 0 events]
  exact List.mem_map_of_mem hei

lemma positions_ascending (p : Event → Bool) (events : List Event) :
    (positions p events).Pairwise (· < ·) := by
  have hall : (events.zipIdx.map Prod.snd).Pairwise (· < ·) := by
    rw [List.zipIdx_map_snd]
    exact List.pairwise_lt_range'
  exact hall.sublist (List.filter_sublist.map Prod.snd)

lemma mem_positions {p : Event → Bool} {i : ℕ} :
    i ∈ positions p events ↔ ∃ e, events[i]? = some e ∧ p e = true := by
  simp only [positions, List.mem_map, List.mem_filter]
  constructor
  · rintro ⟨⟨e, j⟩, ⟨hmem, hp⟩, rfl⟩
    exact ⟨e, List.mk_mem_zipIdx_iff_getElem?.mp hmem, hp⟩
  · rintro ⟨e, he, hp⟩
    exact ⟨(e, i), ⟨List.mk_mem_zipIdx_iff_getElem?.mpr he, hp⟩, rfl⟩

lemma positions_length (p : Event → Bool) (events : List Event) :
    (positions p events).length = (events.filter p).length := by
  calc (positions p events).length
      = ((events.zipIdx.map Prod.fst).filter p).length := by
        rw [positions, List.length_map, List.filter_map, List.length_map]
        rfl
    _ = (events.filter p).length := by rw [List.zipIdx_map_fst]

lemma pointees_positions (p : Event → Bool) (events : List Event) :
    pointees events (positions p events) = events.filter p := by
  have hget : ∀ ei ∈ events.zipIdx.filter (fun ei => p ei.1),
      (fun ei : Event × ℕ => events[ei.2]?) ei = some ei.1 := by
    intro ei hei
    exact List.mk_mem_zipIdx_iff_getElem?.mp (List.mem_filter.mp hei).1
  rw [pointees, positions, List.filterMap_map]
  calc (events.zipIdx.filter fun ei => p ei.1).filterMap ((fun i => events[i]?) ∘ Prod.snd)
      = (events.zipIdx.filter fun ei => p ei.1).filterMap fun ei => some ei.1 :=
        List.filterMap_congr hget
    _ = (events.zipIdx.filter fun ei => p ei.1).map Prod.fst := congrFun List.filterMap_eq_map' _
    _ = (events.zipIdx.map Prod.fst).filter p := by rw [List.filter_map]; rfl
    _ = events.filter p := by rw [List.zipIdx_map_fst]

/-- The live blocks just after each event. -/
def snapshots (events : List Event) : List (List ℕ) :=
  (List.range events.length).map fun k => (live (events.take (k + 1))).toList.map Prod.snd

lemma snapshots_append (events : List Event) (e : Event) :
    snapshots (events ++ [e]) =
      snapshots events ++ [(live (events ++ [e])).toList.map Prod.snd] := by
  simp only [snapshots, List.length_append, List.length_singleton, List.range_succ,
    List.map_append, List.map_cons, List.map_nil]
  congr 1
  · refine List.map_congr_left fun k hk => ?_
    rw [List.take_append_of_le_length (List.mem_range.mp hk)]
  · rw [List.take_of_length_le (by simp)]

/-- What the indices hold after the pass. -/
def indexOf (events : List Event) : IndexState where
  live := live events
  byType := fun T => positions (fun e => e.type = T) events
  byContext := fun c => positions (fun e => e.context = c) events
  validRegions := snapshots events

lemma pushAt_positions {κ : Type} [DecidableEq κ] (key : Event → κ) (events : List Event)
    (e : Event) : pushAt (fun k => positions (fun e => key e = k) events) (key e) events.length
      = fun k => positions (fun e => key e = k) (events ++ [e]) := by
  funext k
  rw [pushAt, positions_append]
  by_cases h : k = key e
  · subst h; simp
  · simp [Function.update_of_ne h, Ne.symm h]

/-- **One step of the pass**, with its guards. -/
lemma indexEvent_eq_ok {st st' : IndexState} {e : Event} {i : ℕ} :
    indexEvent st e i = .ok st' ↔ AcceptedEvent st.live e ∧ st' =
      { live := liveStep st.live e i
        byType := pushAt st.byType e.type i
        byContext := pushAt st.byContext e.context i
        validRegions := st.validRegions ++ [(liveStep st.live e i).toList.map Prod.snd] } := by
  simp only [indexEvent, AcceptedEvent, liveStep]
  cases e.type with
  | MALLOC =>
      rw [checked_bind_eq_ok]
      constructor
      · rintro ⟨u, hassert, h⟩
        have hfresh : e.arg1 ∉ st.live := by
          simpa [← Std.TreeMap.contains_iff_mem] using assertC_eq_ok.mp hassert
        exact ⟨⟨by simp, fun _ => hfresh⟩, (Except.ok.inj h).symm⟩
      · rintro ⟨⟨-, hfresh⟩, rfl⟩
        refine ⟨(), assertC_eq_ok.mpr ?_, rfl⟩
        simpa [← Std.TreeMap.contains_iff_mem] using hfresh rfl
  | END =>
      constructor
      · intro h; cases h
      · rintro ⟨⟨hne, -⟩, -⟩; exact absurd rfl hne
  | FREE | READ | WRITE =>
      constructor
      · intro h
        exact ⟨⟨by simp, fun hm => by cases hm⟩, (Except.ok.inj h).symm⟩
      · rintro ⟨-, rfl⟩; rfl

lemma indexEvents_append (events : List Event) (e : Event) :
    indexEvents (events ++ [e]) =
      indexEvents events >>= fun st => indexEvent st e events.length := by
  simp [indexEvents, List.zipIdx_append]

/-- **The whole pass.** -/
theorem indexEvents_eq_ok : ∀ {events : List Event} {st : IndexState},
    indexEvents events = .ok st ↔ Accepted events ∧ st = indexOf events := by
  intro events
  induction events using List.reverseRecOn with
  | nil =>
      intro st
      constructor
      · intro h
        exact ⟨Accepted.nil, (Except.ok.inj h).symm⟩
      · rintro ⟨-, rfl⟩; rfl
  | append_singleton events e ih =>
      intro st
      have hindex : indexOf (events ++ [e]) =
          { live := liveStep (indexOf events).live e events.length
            byType := pushAt (indexOf events).byType e.type events.length
            byContext := pushAt (indexOf events).byContext e.context events.length
            validRegions := (indexOf events).validRegions ++
              [(liveStep (indexOf events).live e events.length).toList.map Prod.snd] } := by
        simp only [indexOf, live_append, snapshots_append, pushAt_positions Event.type events e,
          pushAt_positions Event.context events e]
      rw [indexEvents_append, checked_bind_eq_ok, accepted_append]
      constructor
      · rintro ⟨st₀, h₀, h⟩
        obtain ⟨hacc, rfl⟩ := ih.mp h₀
        obtain ⟨hev, rfl⟩ := indexEvent_eq_ok.mp h
        exact ⟨⟨hacc, hev⟩, hindex.symm⟩
      · rintro ⟨⟨hacc, hev⟩, rfl⟩
        exact ⟨indexOf events, ih.mpr ⟨hacc, rfl⟩, indexEvent_eq_ok.mpr ⟨hev, hindex⟩⟩

lemma accepted_iff {events : List Event} :
    Accepted events ↔ (indexEvents events).isOk = true := by
  constructor
  · intro h
    rw [indexEvents_eq_ok.mpr ⟨h, rfl⟩]
    rfl
  · intro h
    cases hst : indexEvents events with
    | ok st => exact (indexEvents_eq_ok.mp hst).1
    | error e => rw [hst] at h; cases h

instance (events : List Event) : Decidable (Accepted events) :=
  decidable_of_iff _ accepted_iff.symm

/-! ## Reading a snapshot -/

section Snapshot

variable {events : List Event}

lemma snapshots_getElem? {k : ℕ} (h : k < events.length) :
    (snapshots events)[k]? = some ((live (events.take (k + 1))).toList.map Prod.snd) := by
  simp [snapshots, h]

lemma map_pointees {β : Type} {g : Event → β} {k : UInt64 × ℕ → β} :
    ∀ {entries : List (UInt64 × ℕ)}, (∀ p ∈ entries, ∃ e, events[p.2]? = some e ∧ g e = k p) →
    (pointees events (entries.map Prod.snd)).map g = entries.map k
  | [], _ => rfl
  | p :: entries, h => by
      obtain ⟨e, he, hg⟩ := h p (by simp)
      have ih : (pointees events (entries.map Prod.snd)).map g = entries.map k :=
        map_pointees fun q hq => h q (by simp [hq])
      simp only [pointees, List.map_cons, List.filterMap_cons, he, hg] at ih ⊢
      rw [ih]

/-- An entry of a snapshot: position `i` under begin `b` is a MALLOC still live that begins at
`b`. -/
lemma liveMalloc_of_mem (h : Accepted events) {n : ℕ} {p : UInt64 × ℕ}
    (hp : p ∈ (live (events.take n)).toList) :
    ∃ e, events[p.2]? = some e ∧ LiveMalloc (events.take n) p.2 e ∧ e.arg1 = p.1 := by
  obtain ⟨e, he, heb⟩ := (live_getElem? (h.take n)).mp ((mem_toList_iff _ _).mp hp)
  refine ⟨e, ?_, he, heb⟩
  have hat := he.at_i
  rw [List.getElem?_take] at hat
  split_ifs at hat
  exact hat

/-- The live MALLOCs after the first `n` events, as a snapshot lists them. -/
def blocksAfter (events : List Event) (n : ℕ) : List Event :=
  pointees events ((live (events.take n)).toList.map Prod.snd)

/-- The blocks of a snapshot are the live MALLOCs, -/
lemma mem_blocksAfter (h : Accepted events) (n : ℕ) (e : Event) :
    e ∈ blocksAfter events n ↔ ∃ i, LiveMalloc (events.take n) i e := by
  simp only [blocksAfter, pointees, List.mem_filterMap, List.mem_map]
  constructor
  · rintro ⟨i, ⟨p, hp, rfl⟩, he⟩
    obtain ⟨e', he', hlive, -⟩ := liveMalloc_of_mem h hp
    rw [he] at he'
    cases Option.some.inj he'
    exact ⟨p.2, hlive⟩
  · rintro ⟨i, he⟩
    have hmem := (mem_toList_iff (live (events.take n)) (e.arg1, i)).mpr
      ((live_getElem? (h.take n)).mpr ⟨e, he, rfl⟩)
    have hat := he.at_i
    rw [List.getElem?_take] at hat
    split_ifs at hat
    exact ⟨i, ⟨_, hmem, rfl⟩, hat⟩

/-- in ascending order of begin. -/
lemma blocksAfter_sorted (h : Accepted events) (n : ℕ) :
    (blocksAfter events n).Pairwise fun p q => p.arg1 < q.arg1 := by
  have hkeys : (blocksAfter events n).map Event.arg1
      = (live (events.take n)).toList.map Prod.fst :=
    map_pointees fun p hp => by
      obtain ⟨e, he, -, hb⟩ := liveMalloc_of_mem h hp
      exact ⟨e, he, hb⟩
  have hsorted : ((live (events.take n)).toList.map Prod.fst).Pairwise (· < ·) :=
    List.pairwise_map.mpr (toList_sorted _)
  rw [← hkeys] at hsorted
  exact List.pairwise_map.mp hsorted

end Snapshot

/-! ## The pass over a trace -/

section Load

variable {p : Parsed} {cacheLine : UInt64} {t : Trace}

/-- A trace with its indices filled. -/
def indexedTrace (p : Parsed) (cacheLine : UInt64) : Trace where
  toParsed := p
  byType := (indexOf p.events).byType
  byContext := (indexOf p.events).byContext
  validRegions := (indexOf p.events).validRegions
  maxAddress := 0
  cacheLine

lemma indexTraceFile_eq_ok :
    (Trace.ofParsed p cacheLine).indexTraceFile = .ok t ↔
      Accepted p.events ∧ t = indexedTrace p cacheLine := by
  rw [Trace.indexTraceFile, checked_bind_eq_ok]
  constructor
  · rintro ⟨st, hst, h⟩
    obtain ⟨hacc, rfl⟩ := indexEvents_eq_ok.mp hst
    exact ⟨hacc, (Except.ok.inj h).symm⟩
  · rintro ⟨hacc, rfl⟩
    exact ⟨indexOf p.events, indexEvents_eq_ok.mpr ⟨hacc, rfl⟩, rfl⟩

/-- The closed intervals of the MALLOC events. -/
def mallocsOf (events : List Event) : List (UInt64 × UInt64) :=
  (events.filter fun e => e.type = .MALLOC).map fun e => (e.arg1, e.arg2)

lemma mallocIntervals_indexedTrace :
    (indexedTrace p cacheLine).mallocIntervals = mallocsOf p.events := by
  simp only [Trace.mallocIntervals, indexedTrace, indexOf, pointees_positions, mallocsOf]

/-- **What a loaded trace is.**  The list was accepted, the indices are those of the raw events,
and every event is the image of the raw one under the address map of the MALLOCs. -/
theorem load_eq_ok : Trace.load p cacheLine = .ok t ↔ Accepted p.events ∧
    ∃ m, addressMap cacheLine (mallocsOf p.events) = .ok m ∧
      ∃ mapped, List.Forall₂ (fun e e' => remapEvent m e = .ok e') p.events mapped ∧
        t = { indexedTrace p cacheLine with events := mapped, maxAddress := m.maxAddress } := by
  rw [Trace.load, checked_bind_eq_ok]
  constructor
  · rintro ⟨t₀, h₀, h⟩
    obtain ⟨hacc, rfl⟩ := indexTraceFile_eq_ok.mp h₀
    rw [remapAddresses_eq_ok, mallocIntervals_indexedTrace] at h
    exact ⟨hacc, h⟩
  · rintro ⟨hacc, h⟩
    refine ⟨_, indexTraceFile_eq_ok.mpr ⟨hacc, rfl⟩, ?_⟩
    rw [remapAddresses_eq_ok, mallocIntervals_indexedTrace]
    exact h

/-- An event is rewritten just if its address is spanned: those of a MALLOC always are. -/
lemma remapEvent_returns_iff {m : AddressMap} {mallocs : List (UInt64 × UInt64)}
    (hm : addressMap cacheLine mallocs = .ok m) {e : Event}
    (he : e.type = .MALLOC → (e.arg1, e.arg2) ∈ mallocs) :
    (∃ e', remapEvent m e = .ok e') ↔ Spanned mallocs e.arg1 := by
  have hspanned : ∀ a, (∃ a', remapAddress a m.regions m.offsets = .ok a') ↔ Spanned mallocs a :=
    fun a => remapAddress_returns_iff.trans (addressMap_spanned hm a)
  rw [← hspanned]
  constructor
  · rintro ⟨e', h⟩
    exact ⟨e'.arg1, (remapEvent_fields h).2.2.2.1⟩
  · rintro ⟨a₁, h₁⟩
    by_cases htype : e.type = .MALLOC
    · obtain ⟨a₂, h₂⟩ := (hspanned e.arg2).mpr (Or.inl ⟨_, he htype, Or.inr rfl⟩)
      exact ⟨_, remapEvent_eq_ok.mpr ⟨a₁, h₁, by rw [if_pos htype]; exact ⟨a₂, h₂, rfl⟩⟩⟩
    · exact ⟨_, remapEvent_eq_ok.mpr ⟨a₁, h₁, by rw [if_neg htype]⟩⟩

/-- The events of a trace that can be loaded: no assertion of the index fires, there is a MALLOC,
no counter overflows, and every address is spanned by the MALLOCs. -/
structure Loadable (events : List Event) : Prop where
  accepted : Accepted events
  nonempty : mallocsOf events ≠ []
  countersFit : CountersFit (mallocsOf events)
  spanned : ∀ e ∈ events, Spanned (mallocsOf events) e.arg1

/-- **When a trace is loaded.** -/
theorem load_returns_iff :
    (∃ t, Trace.load p cacheLine = .ok t) ↔ cacheLine ≠ 0 ∧ Loadable p.events := by
  have hmallocs : ∀ e ∈ p.events, e.type = .MALLOC → (e.arg1, e.arg2) ∈ mallocsOf p.events :=
    fun e he htype => List.mem_map.mpr ⟨e, List.mem_filter.mpr ⟨he, by simpa using htype⟩, rfl⟩
  constructor
  · rintro ⟨t, h⟩
    obtain ⟨hacc, m, hm, mapped, hmapped, -⟩ := load_eq_ok.mp h
    obtain ⟨h0, hne, hfits⟩ := addressMap_returns_iff.mp ⟨m, hm⟩
    refine ⟨h0, hacc, hne, hfits, fun e he => ?_⟩
    exact (remapEvent_returns_iff hm (hmallocs e he)).mp
      (checked_forall₂_returns_iff.mp ⟨mapped, hmapped⟩ e he)
  · rintro ⟨h0, hacc, hne, hfits, hspanned⟩
    obtain ⟨m, hm⟩ := addressMap_returns_iff.mpr ⟨h0, hne, hfits⟩
    obtain ⟨mapped, hmapped⟩ := checked_forall₂_returns_iff.mpr fun e he =>
      (remapEvent_returns_iff hm (hmallocs e he)).mpr (hspanned e he)
    exact ⟨_, load_eq_ok.mpr ⟨hacc, m, hm, mapped, hmapped, rfl⟩⟩

end Load

end PerVERT
