import PerVERT.Backend.TraceFile

/-!
# The lists of the indices

`indexTraceFile` files each event twice, under its type and under its context.  The handlers take
for granted that each list is complete, in order and without repetitions, and that two events share
the list of a context just if they were recorded on the same call stack.

* `ListsByKey key events lists` — the lists hold the positions of the events, each under its key.
* `IndicesComplete t` — both indices of a trace do, and it has a snapshot for each event.
* `StackLines` — the rest of each line, as the parser reads through a text of any kind.
* `Interned` — the entry of a stack text holds what the text is resolved to, although it is looked
  up only once.
* **`indexTraceFile_complete`** — what the indices of an accepted list hold; when the list was
  parsed, the contexts are the stack texts of the lines.
-/

namespace PerVERT

/-! ## Lists by a key -/

section Key

variable {κ : Type} [DecidableEq κ] {events : List Event} {key : Event → κ}

/-- Each list points at the events with its key, in the order of the events, and each event is
once in one of them. -/
structure ListsByKey (key : Event → κ) (events : List Event) (lists : κ → List ℕ) : Prop where
  events_eq : ∀ k, pointees events (lists k) = events.filter fun e => key e = k
  ascending : ∀ k, (lists k).Pairwise (· < ·)
  mem_iff : ∀ k i, i ∈ lists k ↔ ∃ e, events[i]? = some e ∧ key e = k
  once : ∀ i, i < events.length → ∃! k, i ∈ lists k

lemma listsByKey_positions (key : Event → κ) (events : List Event) :
    ListsByKey key events fun k => positions (fun e => key e = k) events where
  events_eq := fun k => pointees_positions _ events
  ascending := fun k => positions_ascending _ events
  mem_iff := fun k i => by simp [mem_positions]
  once := by
    intro i hi
    have hget : events[i]? = some events[i] := List.getElem?_eq_getElem hi
    refine ⟨key events[i], mem_positions.mpr ⟨_, hget, by simp⟩, fun k hk => ?_⟩
    obtain ⟨e, he, hkey⟩ := mem_positions.mp hk
    cases hget.symm.trans he
    exact (of_decide_eq_true hkey).symm

/-- Two events share a list just if they have the same key. -/
lemma ListsByKey.share_iff {lists : κ → List ℕ} (h : ListsByKey key events lists) {i j : ℕ}
    {e e' : Event} (he : events[i]? = some e) (he' : events[j]? = some e') :
    (∃ k, i ∈ lists k ∧ j ∈ lists k) ↔ key e = key e' := by
  simp only [h.mem_iff, he, he', Option.some.injEq, exists_eq_left']
  exact eq_comm

end Key

/-- The indices of a trace are complete. -/
structure IndicesComplete (t : Trace) : Prop where
  byType : ListsByKey Event.type t.events t.byType
  byContext : ListsByKey Event.context t.events t.byContext
  share_iff : ∀ i j e e', t.events[i]? = some e → t.events[j]? = some e' →
    ((∃ c, i ∈ t.byContext c ∧ j ∈ t.byContext c) ↔ e.context = e'.context)
  one_snapshot_each : t.validRegions.length = t.events.length

lemma indicesComplete_indexedTrace (p : Parsed) (cacheLine : UInt64) :
    IndicesComplete (indexedTrace p cacheLine) where
  byType := listsByKey_positions Event.type p.events
  byContext := listsByKey_positions Event.context p.events
  share_iff := fun _ _ _ _ he he' =>
    (listsByKey_positions Event.context p.events).share_iff he he'
  one_snapshot_each := by simp [indexedTrace, indexOf, snapshots]

/-! ## Stack texts -/

/-- The stream behind the arguments of a record. -/
def afterArguments (c : Char) (ifs : Istream) : Istream :=
  if c = 'M' then ((ifs.getHex 0).2.getHex 0).2 else (ifs.getHex 0).2

/-- The rest of each line, behind the arguments of its record, up to the `E`.  `old` is what the
variable for the letter holds before it is read. -/
inductive StackLines (old : Char) : Istream → List Text → Prop
  | close {ifs ifs' : Istream} (h : ifs.getChar old = ('E', ifs')) : StackLines old ifs []
  | record {ifs ifs' : Istream} {c : Char} {lines : List Text} (h : ifs.getChar old = (c, ifs'))
      (hc : c ∈ recordLetters)
      (rest : StackLines old ((afterArguments c ifs').getline []).2 lines) :
      StackLines old ifs (((afterArguments c ifs').getline []).1 :: lines)

/-- The entries of the stack texts hold what these are resolved to, and those of the events are
there. -/
structure Interned (fuel : ℕ) (junk : Junk) (p : Parsed) : Prop where
  resolved : ∀ s context, p.contexts s = some context →
    resolveContext fuel junk p.locations s = .ok context
  known : ∀ e ∈ p.events, (p.contexts e.context).isSome = true

section Parse

variable {fuel : ℕ} {junk : Junk} {p p' : Parsed}

/-- Where an extraction leaves the stream does not depend on the variable. -/
lemma getHex_snd (s : Istream) (old : UInt64) : (s.getHex old).2 = (s.getHex 0).2 := by
  unfold Istream.getHex
  cases s.sentry with
  | mk good s' => cases good <;> rfl

/-- **The arguments of a record** leave the stream where they end, whatever the event holds. -/
lemma parseArguments_eq_ok {c : Char} {ifs ifs' : Istream} {event e : Event}
    (h : parseArguments c ifs event = .ok (e, ifs')) :
    (e.type = .END ∧ c = 'E') ∨
      (e.type ≠ .END ∧ c ∈ recordLetters ∧ ifs' = afterArguments c ifs) := by
  unfold parseArguments at h
  split at h
  · cases h
    refine Or.inr ⟨by simp, by simp [recordLetters], ?_⟩
    show ((ifs.getHex event.arg1).2.getHex event.arg2).2 = _
    rw [getHex_snd _ event.arg2, getHex_snd _ event.arg1]
    rfl
  · cases h
    exact Or.inr ⟨by simp, by simp [recordLetters], getHex_snd _ _⟩
  · cases h
    exact Or.inr ⟨by simp, by simp [recordLetters], getHex_snd _ _⟩
  · cases h
    exact Or.inr ⟨by simp, by simp [recordLetters], getHex_snd _ _⟩
  · cases h
    exact Or.inl ⟨rfl, rfl⟩
  · cases h

/-- **Looking a stack text up** resolves it only if it was not known. -/
lemma Interned.parseContext {s : Text} (hp : Interned fuel junk p)
    (h : parseContext fuel junk p s = .ok p') :
    Interned fuel junk p' ∧ p'.events = p.events ∧ (p'.contexts s).isSome = true := by
  have hlooks := parseContext_looksUp h
  refine ⟨⟨fun c frames hframes => ?_, fun e he => ?_⟩, hlooks.events, hlooks.known⟩
  · rw [hlooks.locations]
    rcases hlooks.resolved c frames hframes with hold | ⟨rfl, hresolve⟩
    · exact hp.resolved c frames hold
    · exact hresolve
  · rw [hlooks.events] at he
    exact (hlooks.isSome_iff _).mpr (Or.inr (hp.known e he))

lemma Interned.push (hp : Interned fuel junk p) (e : Event)
    (he : (p.contexts e.context).isSome = true) :
    Interned fuel junk { p with events := p.events ++ [e] } := by
  refine ⟨hp.resolved, fun x hx => ?_⟩
  rcases List.mem_append.mp hx with hx | hx
  · exact hp.known x hx
  · rw [List.mem_singleton.mp hx]
    exact he

/-- **The loop over the records** gives each event the rest of its line for its context. -/
lemma parseTraceLoop_lines : ∀ {n : ℕ} {ifs : Istream} {event : Event} {p : Parsed},
    Interned fuel junk p → parseTraceLoop fuel junk n ifs event p = .ok p' →
      Interned fuel junk p' ∧ ∃ lines, StackLines junk.char ifs lines ∧
        p'.events.map Event.context = p.events.map Event.context ++ lines
  | n + 1, ifs, event, p, hp, h => by
      obtain ⟨e, ifs', hargs, hround⟩ := parseTraceLoop_round h
      rcases hround with ⟨hend, rfl⟩ | ⟨hend, p₁, hp₁, h⟩
      · obtain ⟨-, hc⟩ | ⟨hne, -, -⟩ := parseArguments_eq_ok hargs
        · exact ⟨hp, [], StackLines.close (Prod.ext hc rfl), by simp⟩
        · exact absurd hend hne
      · obtain ⟨heq, -⟩ | ⟨-, hc, rfl⟩ := parseArguments_eq_ok hargs
        · exact absurd heq hend
        obtain ⟨hinterned, hevents, hknown⟩ := hp.parseContext hp₁
        obtain ⟨hp', lines, hlines, hmap⟩ :=
          parseTraceLoop_lines (hinterned.push { e with context := _ } hknown) h
        refine ⟨hp', _, StackLines.record rfl hc hlines, ?_⟩
        rw [hmap, hevents, List.map_append, List.append_assoc]
        rfl

/-- **What `indexTraceFile` leaves.**  The lists by type and by context hold each position once, in
ascending order, under the key of its event and under no other, and there is one snapshot for each
event.  The second part is about a list that was parsed from a text: the contexts of its events are
the stack texts of the lines, one by one. -/
theorem indexTraceFile_complete {cacheLine : UInt64} {t : Trace}
    (h : (Trace.ofParsed p cacheLine).indexTraceFile = .ok t) :
    t.events = p.events ∧ IndicesComplete t ∧
      ∀ fuel junk text b p₀, p₀.events = [] → (p₀.contexts = fun _ => none) →
        parseTraceFile fuel junk (some text) p₀ = .ok (b, p) →
        StackLines junk.char (Istream.ofText text) (t.events.map Event.context) ∧
          ∀ e ∈ t.events, ∃ context, t.contexts e.context = some context ∧
            resolveContext fuel junk t.locations e.context = .ok context := by
  obtain ⟨-, rfl⟩ := indexTraceFile_eq_ok.mp h
  refine ⟨rfl, indicesComplete_indexedTrace p cacheLine, ?_⟩
  intro fuel junk text b p₀ hevents hcontexts hparse
  obtain ⟨p₁, hloop, hparse⟩ := checked_bind_eq_ok.mp hparse
  cases hparse
  have hstart : Interned fuel junk p₀ := by
    refine ⟨fun s context hs => ?_, fun e he => ?_⟩
    · rw [hcontexts] at hs
      cases hs
    · rw [hevents] at he
      cases he
  obtain ⟨hinterned, lines, hlines, hmap⟩ := parseTraceLoop_lines hstart hloop
  rw [hevents] at hmap
  refine ⟨?_, fun e he => ?_⟩
  · show StackLines junk.char (Istream.ofText text) (p.events.map Event.context)
    rw [hmap]
    exact hlines
  · obtain ⟨context, hcontext⟩ := Option.isSome_iff_exists.mp (hinterned.known e he)
    exact ⟨context, hcontext, hinterned.resolved _ _ hcontext⟩

/-- Two of three accesses on one call stack. -/
theorem sharedStack_complete :
    ∃ p t b, parseTraceFile 10 ⟨'?', 0⟩ (some "R 0x1018 0x25\nW 0x1019\nR 0x101a 0x25\nE \n".toList)
        (afterLines twoSequences) = .ok (b, p) ∧
      t.byContext " 0x25".toList = [0, 2] ∧ t.byContext [] = [1] ∧ IndicesComplete t ∧
      t.contexts [] = some [] := by
  obtain ⟨⟨b, p⟩, hp, hany⟩ := @exists_of_any _
    (parseTraceFile 10 ⟨'?', 0⟩ (some "R 0x1018 0x25\nW 0x1019\nR 0x101a 0x25\nE \n".toList)
      (afterLines twoSequences))
    (fun x => (Trace.ofParsed x.2 1024).indexTraceFile.toOption.any fun t =>
      t.byContext " 0x25".toList = [0, 2] ∧ t.byContext [] = [1] ∧
        t.events[1]?.map Event.context = some [])
    (by decide +kernel)
  obtain ⟨t, ht, hlists⟩ := exists_of_any hany
  obtain ⟨hshared, hother, hcontext⟩ := of_decide_eq_true hlists
  obtain ⟨-, hindices, hparsed⟩ := indexTraceFile_complete ht
  obtain ⟨-, hresolved⟩ := hparsed 10 ⟨'?', 0⟩ _ b _ rfl rfl hp
  obtain ⟨e, he, hnil⟩ := Option.map_eq_some_iff.mp hcontext
  obtain ⟨context, hknown, hresolve⟩ := hresolved e (List.mem_of_getElem? he)
  rw [hnil] at hknown hresolve
  cases hresolve
  exact ⟨p, t, b, hp, hshared, hother, hindices, hknown⟩

end Parse

end PerVERT
