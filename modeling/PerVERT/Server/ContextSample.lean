import PerVERT.Core.Sampling
import PerVERT.Server.SentAddresses

/-!
# The sample of a context

A context may have any number of events, and `/f/context_events` sends at most 32 of them.  The
loop counts the events and takes those whose count the stride divides.

* `sampledEvents_eq` — the loop takes every `delta`-th event.
* `ContextSample` — what an answer should hold: which events, in which order, and how many.
* **`f_context_events_samples`** — the answer for a READ or a WRITE holds that.
-/

namespace PerVERT

/-- The entries tell of the events at the positions `sent`, which are those of the context at equal
distances from the first. -/
structure ContextSample (t : Trace) (context : Text) (entries : List (ℤ × ℤ)) (sent : List ℕ) :
    Prop where
  entries_eq : entries = (pointees t.events sent).map fun e =>
    (toInt e.arg1.toNat, toInt e.index.toNat)
  sublist : sent.Sublist (t.byContext context)
  ascending : sent.Pairwise (· < ·)
  first : ∃ i, sent.head? = some i ∧ (t.byContext context).head? = some i
  apart : ∀ j, sent[j]? = (t.byContext context)[j * ((t.byContext context).length / 32 + 1)]?
  length_le : entries.length ≤ 32
  le_length : min (t.byContext context).length 16 ≤ entries.length
  /-- The indices that are sent are the positions, -/
  indices : entries.map Prod.snd = sent.map fun i : ℕ => toInt i
  /-- and in the same order while these are `int`s. -/
  increasing : (∀ i ∈ sent, i < 2 ^ 31) → (entries.map Prod.snd).Pairwise (· < ·)

section Sample

variable {t : Trace} {f : ℕ} {e : Event}

/-- **The loop** takes every `d`-th event; `k` is how many it still skips. -/
lemma sampledEvents_eq {d : ℕ} : ∀ {es : List Event} {count k : ℕ}, k < d →
    (count + k) % d = 0 → sampledEvents d es count = everyNth d k es
  | [], _, _, _, _ => by simp [sampledEvents]
  | e :: es, count, k, hk, hcount => by
      have hmod : (count : ℤ).tmod d = ((count % d : ℕ) : ℤ) := by
        rw [Int.tmod_eq_emod_of_nonneg (Int.natCast_nonneg _)]
        rfl
      have hnext : ((count : ℤ) + 1) = ((count + 1 : ℕ) : ℤ) := by push_cast; rfl
      rw [sampledEvents, hmod, hnext]
      cases k with
      | zero =>
          rw [Nat.add_zero] at hcount
          have hround : (count + 1 + (d - 1)) % d = 0 := by
            rw [show count + 1 + (d - 1) = count + d by omega, Nat.add_mod_right]
            exact hcount
          rw [if_pos (by exact_mod_cast hcount), everyNth_zero_cons,
            sampledEvents_eq (by omega) hround]
      | succ k =>
          have hskip : ¬ count % d = 0 := by
            intro hzero
            rw [Nat.add_mod, hzero, Nat.zero_add, Nat.mod_mod, Nat.mod_eq_of_lt hk] at hcount
            exact Nat.succ_ne_zero k hcount
          have hround : (count + 1 + k) % d = 0 := by
            rw [show count + 1 + k = count + (k + 1) by omega]
            exact hcount
          rw [if_neg (by exact_mod_cast hskip), everyNth_succ_cons,
            sampledEvents_eq (by omega) hround]

/-- Every `d`-th pointer points at every `d`-th event. -/
lemma pointees_everyNth {events : List Event} {d : ℕ} : ∀ {ptrs : List ℕ} {k : ℕ},
    (∀ i ∈ ptrs, i < events.length) →
      everyNth d k (pointees events ptrs) = pointees events (everyNth d k ptrs)
  | [], _, _ => by simp [pointees]
  | i :: ptrs, k, h => by
      obtain ⟨hi, hptrs⟩ := List.forall_mem_cons.mp h
      have hcons : ∀ is, pointees events (i :: is) = events[i] :: pointees events is := by
        intro is
        simp [pointees, hi]
      cases k with
      | zero => rw [hcons, everyNth_zero_cons, everyNth_zero_cons, hcons, pointees_everyNth hptrs]
      | succ k => rw [hcons, everyNth_succ_cons, everyNth_succ_cons, pointees_everyNth hptrs]

/-- Each event of a loaded trace that is pointed at tells its position. -/
lemma index_pointees (hloaded : Loaded t) : ∀ {is : List ℕ}, (∀ i ∈ is, i < t.events.length) →
    (pointees t.events is).map (fun e => toInt e.index.toNat) = is.map fun i : ℕ => toInt i
  | [], _ => rfl
  | i :: is, h => by
      obtain ⟨hi, his⟩ := List.forall_mem_cons.mp h
      have hindex : toInt (t.events[i]).index.toNat = toInt i := by
        rw [hloaded.index (List.getElem?_eq_getElem hi), UInt32.toNat_ofNat', toInt, toInt]
        omega
      have hcons : pointees t.events (i :: is) = t.events[i] :: pointees t.events is := by
        simp [pointees, hi]
      rw [hcons, List.map_cons, List.map_cons, hindex, index_pointees hloaded his]

/-- The positions of the events that are sent. -/
def sentPositions (t : Trace) (context : Text) : List ℕ :=
  everyNth ((t.byContext context).length / 32 + 1) 0 (t.byContext context)

lemma sentPositions_sublist (t : Trace) (context : Text) :
    (sentPositions t context).Sublist (t.byContext context) :=
  everyNth_sublist

lemma sentPositions_lt (hloaded : Loaded t) {context : Text} :
    ∀ i ∈ sentPositions t context, i < t.events.length :=
  fun _ hi => hloaded.byContext_lt ((sentPositions_sublist t context).subset hi)

/-- **What is sent for an access**: the events at equal distances of the context. -/
lemma sentEvents_eq (hloaded : Loaded t) (haccess : e.isAccess = true)
    (hn : (t.byContext e.context).length < 2 ^ 31) :
    sentEvents t e = pointees t.events (sentPositions t e.context) := by
  have htotal : toInt (t.byContext e.context).length = (t.byContext e.context).length :=
    toInt_of_lt hn
  have hdelta : ((t.byContext e.context).length : ℤ).tdiv 32 + 1
      = (((t.byContext e.context).length / 32 + 1 : ℕ) : ℤ) := by
    rw [Int.tdiv_eq_ediv_of_nonneg (Int.natCast_nonneg _)]
    push_cast
    rfl
  have hloop := @sampledEvents_eq ((t.byContext e.context).length / 32 + 1)
    (contextEvents t e.context) 0 0 (Nat.succ_pos _) (Nat.zero_mod _)
  rw [sentEvents, if_pos haccess, htotal, hdelta, ← Int.natCast_zero, hloop, contextEvents]
  exact pointees_everyNth fun i => hloaded.byContext_lt

/-- **The sample of a context.**  For a READ or a WRITE the answer tells of events of its context at
equal distances, `n / 32 + 1` for a context of `n` events, beginning with the first one and in the
order of the trace.  There are at most 32 of them, and all of a short context or at least 16. -/
theorem f_context_events_samples (hloaded : Loaded t) (hf : f < 2 ^ 31)
    (hget : t.events[f]? = some e) (haccess : e.isAccess = true)
    (hn : (t.byContext e.context).length < 2 ^ 31) :
    ∃ answer sent, f_context_events t f = .ok (some answer) ∧
      ContextSample t e.context answer.events sent := by
  obtain ⟨answer, hanswer⟩ := f_context_events_answers hloaded hf hget hn
  obtain ⟨e', he', hentries⟩ := f_context_events_eq_some hanswer
  cases (vectorAt_of_getElem? hget).symm.trans he'
  rw [sentEvents_eq hloaded haccess hn] at hentries
  have hsub := sentPositions_sublist t e.context
  have hascending := (hloaded.byContext_ascending e.context).sublist hsub
  have hindices : answer.events.map Prod.snd
      = (sentPositions t e.context).map fun i : ℕ => toInt i := by
    rw [hentries, List.map_map]
    exact index_pointees hloaded (sentPositions_lt hloaded)
  have hlength : answer.events.length = (sentPositions t e.context).length := by
    rw [← List.length_map Prod.snd, hindices, List.length_map]
  refine ⟨answer, _, hanswer, hentries, hsub, hascending, ?_, fun j => ?_, ?_, ?_, hindices, ?_⟩
  · -- the event of the frame is one of the context
    have hmem : f ∈ t.byContext e.context := hloaded.mem_byContext.mpr ⟨e, hget, rfl⟩
    obtain ⟨i, is, his⟩ := List.exists_cons_of_ne_nil (List.ne_nil_of_mem hmem)
    rw [sentPositions, everyNth_head?, his]
    exact ⟨i, rfl, rfl⟩
  · rw [sentPositions, everyNth_getElem? (Nat.succ_pos _), Nat.zero_add]
  · rw [hlength]
    exact everyNth_length_le (by decide)
  · rw [hlength]
    exact @le_everyNth_length _ (t.byContext e.context) 32
  · intro hsmall
    rw [hindices, List.pairwise_map]
    refine hascending.imp_of_mem fun {i j} hi hj hlt => ?_
    rw [toInt_of_lt (hsmall i hi), toInt_of_lt (hsmall j hj)]
    exact_mod_cast hlt

/-- A block, read twice by one context and written by another in between. -/
def twoContexts : Text :=
  "M 0x100000 0x100800 0x10 0x11\nR 0x100010 0x12\nW 0x100020 0x13\nR 0x100030 0x12\nE \n".toList

/-- Both reads are sent. -/
theorem twoContexts_sampled : ∃ t e, Loaded t ∧ t.events[1]? = some e ∧
    t.byContext e.context = [1, 3] ∧ ∃ answer sent,
      f_context_events t (1 : ℕ) = .ok (some answer) ∧
        ContextSample t e.context answer.events sent := by
  obtain ⟨t, ht, hany⟩ := @exists_loaded 10 ⟨'?', 0⟩ ⟨[], 0, 0⟩ (some goodLines) (some twoContexts)
    (fun t => t.events[1]?.any fun e => e.isAccess ∧ t.byContext e.context = [1, 3])
    (by decide +kernel)
  obtain ⟨e, he, haccess, hcontext⟩ : ∃ e, t.events[1]? = some e ∧ e.isAccess = true ∧
      t.byContext e.context = [1, 3] := by
    simpa [Option.any_eq_true] using hany
  exact ⟨t, e, ht, he, hcontext,
    f_context_events_samples ht (by decide) he haccess (by rw [hcontext]; decide)⟩

end Sample

end PerVERT
