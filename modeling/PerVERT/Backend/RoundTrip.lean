import PerVERT.Backend.TraceFile
import PerVERT.Pintool.TraceText

/-!
# Reading a trace back

The recorder prints its records and the backend parses them.  What is printed is a complete trace
in the sense of `Backend/TraceFile.lean`, whose rules do the rest.

* `Tells` — the event parsed in a round says what the record says, at its position and with its
  stack text.
* **`traceFile_traceText`** — what the recorder writes is a complete trace.
* **`parseTraceFile_traceText`** — parsing undoes printing.
* **`stackText_loses_last`** — of the addresses in a stack text, all but the last are resolved.
-/

namespace PerVERT

/-- The event at position `k` is what a record reads back as. -/
structure Tells (sym : Symbols) (k : ℕ) (r : Record) (e : Event) : Prop where
  body : r.body.Matches e
  index : e.index = UInt32.ofNat k
  context : e.context = stackText sym r

/-! ## The text of a trace is complete -/

section Text

variable {sym : Symbols}

/-- What a record says, and its stack text. -/
def Record.entry (sym : Symbols) (r : Record) : Entry := ⟨r.body, stackText sym r⟩

lemma hexNumber_address (addr : UInt64) (tail : Text) :
    hexNumber ([' '] ++ (showHex addr.toNat ++ ' ' :: tail)) = some addr ∧
      afterHex ([' '] ++ (showHex addr.toNat ++ ' ' :: tail)) = ' ' :: tail := by
  have hscan := @hexNumber_showHex [' '] tail ' ' addr.toNat (List.forall_mem_singleton.mpr rfl)
    addr.toNat_lt (by decide) (by decide)
  rw [UInt64.ofNat_toNat] at hscan
  exact hscan

lemma hexNumber_argument (sym : Symbols) (r : Record) (addr : UInt64) (tail : Text) :
    hexNumber ([' '] ++ (showHex addr.toNat ++ (stackText sym r ++ tail))) = some addr ∧
      afterHex ([' '] ++ (showHex addr.toNat ++ (stackText sym r ++ tail)))
        = stackText sym r ++ tail :=
  hexNumber_address addr (showHex r.ip.toNat ++ dumpStack sym r.stack ++ tail)

lemma readsEntry_record {r : Record} (hips : r.IpsKnown) (tail : Text) :
    ReadsEntry (r.text sym ++ tail) (r.entry sym) tail := by
  have hletter : isSpace r.body.letter = false := by cases r.body <;> rfl
  have hline : '\n' ∉ (r.entry sym).context := newline_notMem_stackText sym hips
  rw [record_text]
  refine ⟨r.body.letter, _, List.dropWhile_cons_of_neg (by rw [hletter]; decide), ?_, hline⟩
  cases hbody : r.body with
  | M addr endAddr =>
      have hfirst := hexNumber_address addr (showHex endAddr.toNat ++ (stackText sym r ++
        '\n' :: tail))
      have hlast := hexNumber_argument sym r endAddr ('\n' :: tail)
      simp only [List.cons_append, List.nil_append] at hfirst hlast
      simp [RecordBody.letter, readBody, hfirst, hlast, Record.entry, hbody]
  | F addr =>
      have hlast := hexNumber_argument sym r addr ('\n' :: tail)
      simp only [List.cons_append, List.nil_append] at hlast
      simp [RecordBody.letter, readBody, hlast, Record.entry, hbody]
  | R addr =>
      have hlast := hexNumber_argument sym r addr ('\n' :: tail)
      simp only [List.cons_append, List.nil_append] at hlast
      simp [RecordBody.letter, readBody, hlast, Record.entry, hbody]
  | W addr =>
      have hlast := hexNumber_argument sym r addr ('\n' :: tail)
      simp only [List.cons_append, List.nil_append] at hlast
      simp [RecordBody.letter, readBody, hlast, Record.entry, hbody]

/-- **What the recorder writes is a complete trace.** -/
theorem traceFile_traceText {records : List Record} (hips : ∀ r ∈ records, r.IpsKnown) :
    TraceFile (traceText sym records) (records.map (Record.entry sym)) := by
  induction records with
  | nil => exact .close rfl rfl
  | cons r records ih =>
      have htext : traceText sym (r :: records) = r.text sym ++ traceText sym records := by
        simp [traceText]
      rw [htext, List.map_cons]
      exact .record (readsEntry_record (hips r List.mem_cons_self) _)
        (ih fun r' hr' => hips r' (List.mem_cons_of_mem _ hr'))

end Text

/-! ## The whole file -/

/-- What was written is what is read. -/
structure ReadsBack (records : List Record) (events : List Event) : Prop where
  /-- Same order, same letters, same arguments. -/
  same : MatchTrace records events
  index : ∀ (k : ℕ) (e : Event), events[k]? = some e → e.index.toNat = k
  /-- Two events share a context exactly when their instruction pointers were the same. -/
  context : ∀ (i j : ℕ) (r r' : Record) (e e' : Event), records[i]? = some r →
    records[j]? = some r' → events[i]? = some e → events[j]? = some e' →
    (e.context = e'.context ↔ r.ips = r'.ips)

section File

variable {sym : Symbols} {records : List Record} {events : List Event}

lemma tells_of_getElem?
    (h : List.Forall₂ (fun rk e => Tells sym rk.2 rk.1 e) records.zipIdx events) {k : ℕ}
    {r : Record} {e : Event} (hr : records[k]? = some r) (he : events[k]? = some e) :
    Tells sym k r e := by
  obtain ⟨hk, rfl⟩ := List.getElem?_eq_some_iff.mp hr
  obtain ⟨hk', rfl⟩ := List.getElem?_eq_some_iff.mp he
  simpa using (List.forall₂_iff_get.mp h).2 k (by simpa using hk) hk'

lemma readsBack_of_tells (hips : ∀ r ∈ records, r.IpsKnown) (hlen : records.length < 2 ^ 32)
    (h : List.Forall₂ (fun rk e => Tells sym rk.2 rk.1 e) records.zipIdx events) :
    ReadsBack records events := by
  have hlength : records.length = events.length := by simpa using h.length_eq
  constructor
  · rw [MatchTrace, List.forall₂_iff_get]
    refine ⟨hlength, fun k hk hk' => ?_⟩
    exact (tells_of_getElem? h (List.getElem?_eq_getElem hk) (List.getElem?_eq_getElem hk')).body
  · intro k e he
    have hk : k < records.length := hlength ▸ lt_of_getElem? he
    rw [(tells_of_getElem? h (List.getElem?_eq_getElem hk) he).index, UInt32.toNat_ofNat']
    exact Nat.mod_eq_of_lt (lt_trans hk hlen)
  · intro i j r r' e e' hr hr' he he'
    rw [(tells_of_getElem? h hr he).context, (tells_of_getElem? h hr' he').context]
    exact stackText_eq_iff sym (hips r (List.mem_of_getElem? hr))
      (hips r' (List.mem_of_getElem? hr'))

/-- **Parsing undoes printing.**  For every list of records whose instruction pointers are known,
fewer than `2 ^ 32`, and every line table with which each of their stack texts is resolved at all,
the file that the recorder writes is read, and says the same: the events are the records in their
order, each with its position, and the contexts of two of them are one just if their stack texts
are. -/
theorem parseTraceFile_traceText (sym : Symbols) (junk : Junk) (p : Parsed) (hp : p.events = [])
    (records : List Record) (hips : ∀ r ∈ records, r.IpsKnown) (hlen : records.length < 2 ^ 32)
    (hcontexts : ∀ r ∈ records, ∃ n context,
      resolveContext n junk p.locations (stackText sym r) = .ok context) :
    ∃ n p', (∀ fuel, n ≤ fuel →
        parseTraceFile fuel junk (some (traceText sym records)) p = .ok (true, p')) ∧
      ReadsBack records p'.events ∧
      ∀ r ∈ records, (p'.contexts (stackText sym r)).isSome = true := by
  have hresolve : ∀ x ∈ records.map (Record.entry sym), ∃ n context,
      resolveContext n junk p.locations x.context = .ok context := by
    intro x hx
    obtain ⟨r, hr, rfl⟩ := List.mem_map.mp hx
    exact hcontexts r hr
  obtain ⟨n, p', hread, htold, -, -, hknown⟩ :=
    parseTraceFile_file (traceFile_traceText hips) hp hresolve
  refine ⟨n, p', hread, ?_, fun r hr => hknown _ (List.mem_map.mpr ⟨r, hr, rfl⟩)⟩
  rw [List.zipIdx_map, List.forall₂_map_left_iff] at htold
  exact readsBack_of_tells hips hlen
    (htold.imp fun rk e h => ⟨h.body, h.index, h.context⟩)

end File

/-- A block, a read from it one call deeper, and its end. -/
def shortTrace : List Record :=
  [⟨.M 0x1010 0x1020, 0x400110, []⟩, ⟨.R 0x1018, 0x400190, [⟨0, 0x400110, 0x7fff1000, 0x400180⟩]⟩,
    ⟨.F 0x1010, 0x400110, []⟩]

/-- A line table with two rows. -/
def twoRows : Parsed where
  okay := true
  locations := [⟨"UNKNOWN".toList, 0, 0⟩, ⟨"a.c".toList, 3, 0x400100⟩, ⟨"a.c".toList, 9, 0x400180⟩,
    ⟨"a.c".toList, 12, 0x4001f0⟩]
  contexts := fun _ => none
  events := []

theorem shortTrace_readsBack : ∃ n p',
    (∀ fuel, n ≤ fuel → parseTraceFile fuel ⟨'?', 0⟩
      (some (traceText ⟨fun _ => [], fun _ => []⟩ shortTrace)) twoRows = .ok (true, p')) ∧
    ReadsBack shortTrace p'.events ∧ ∀ r ∈ shortTrace,
      (p'.contexts (stackText ⟨fun _ => [], fun _ => []⟩ r)).isSome = true := by
  refine parseTraceFile_traceText _ _ twoRows rfl shortTrace (by decide) (by decide) ?_
  intro r hr
  simp only [shortTrace, List.mem_cons, List.not_mem_nil, or_false] at hr
  rcases hr with rfl | rfl | rfl
  · exact ⟨1, [], rfl⟩
  · exact ⟨2, [2], rfl⟩
  · exact ⟨1, [], rfl⟩

/-! ## The frames of a stack text -/

section Stack

/-- Numbers printed one after the other.  The end is seen with the last of them. -/
lemma readsAddresses_hexWords : ∀ {xs : List UInt64}, xs ≠ [] →
    ReadsAddresses (hexWords xs) xs.dropLast
  | [x], _ => by
      have hend : afterHex (hexWords [x]) = [] := by
        simpa [hexWords] using
          @afterHex_showHex_end [' '] (List.forall_mem_singleton.mpr rfl) x.toNat
      exact .last hend
  | x :: y :: ys, _ => by
      have hscan := @hexNumber_showHex [' '] (showHex y.toNat ++ hexWords ys) ' ' x.toNat
        (List.forall_mem_singleton.mpr rfl) x.toNat_lt (by decide) (by decide)
      have htext : hexWords (x :: y :: ys)
          = [' '] ++ (showHex x.toNat ++ ' ' :: (showHex y.toNat ++ hexWords ys)) := by
        simp [hexWords]
      have hrest : ' ' :: (showHex y.toNat ++ hexWords ys) = hexWords (y :: ys) := by
        simp [hexWords]
      rw [← htext, hrest, UInt64.ofNat_toNat] at hscan
      rw [List.dropLast_cons_cons]
      refine .next ?_ hscan.1 ?_
      · rw [hscan.2]
        simp [hexWords]
      · rw [hscan.2]
        exact readsAddresses_hexWords (List.cons_ne_nil y ys)

/-- The extraction loop over `s` returns with one frame for each address, in their order. -/
def EveryAddressResolved (junk : Junk) (rows : List Location) (s : Text) (ips : List UInt64) :
    Prop :=
  ∃ n frames, contextLoop junk (lineTable rows) n (Istream.ofText s) [] = .ok frames ∧
    List.Forall₂ (fun a frame => FramesOf (lineTable rows) a [frame]) ips frames

lemma stackFrames_length_le (rows : List Location) : ∀ as : List UInt64,
    (stackFrames rows as).length ≤ as.length
  | [] => le_refl _
  | a :: as => by
      have hone : (addressFrames (lineTable rows) a).length ≤ 1 := by
        cases hframes : addressFrames (lineTable rows) a with
        | nil => exact Nat.zero_le _
        | cons frame frames =>
            have hspec := (resolveAddress_lineTable rows a).2
            rw [hframes] at hspec
            cases hspec <;> exact le_refl _
      have ih := stackFrames_length_le rows as
      rw [stackFrames] at ih
      rw [stackFrames, List.flatMap_cons, List.length_append, List.length_cons]
      omega

/-- **The last address is lost.**  The stack text of a record ends with the last address of its
stack, the end is seen while that is read, and the loop returns with the frames of those before
it: for every record and every line table. -/
theorem stackText_loses_last (sym : Symbols) (junk : Junk) (rows : List Location) (r : Record)
    (hips : r.IpsKnown) :
    (∀ fuel, r.ips.length ≤ fuel →
      contextLoop junk (lineTable rows) fuel (Istream.ofText (stackText sym r)) []
        = .ok (stackFrames rows r.ips.dropLast)) ∧
    ¬ EveryAddressResolved junk rows (stackText sym r) r.ips := by
  have hne : r.ips ≠ [] := List.cons_ne_nil _ _
  have hlength : r.ips.dropLast.length < r.ips.length := by
    have := List.length_pos_iff.mpr hne
    rw [List.length_dropLast]
    omega
  have hreads := readsAddresses_hexWords hne
  rw [← stackText_eq_hexWords sym hips] at hreads
  refine ⟨fun fuel hfuel => ?_, fun h => ?_⟩
  · exact contextLoop_reads hreads [] (lt_of_lt_of_le hlength hfuel)
  · obtain ⟨n, frames, hloop, hframes⟩ := h
    obtain ⟨as, has, rfl⟩ := contextLoop_eq_ok hloop
    rw [has.unique hreads] at hframes
    have hle := stackFrames_length_le rows r.ips.dropLast
    have hsame := hframes.length_eq
    rw [stackFrames] at hle
    omega

end Stack

/-- A read outside of all calls. -/
def outermostRead : Record := ⟨.R 0x1018, 0x400110, []⟩

theorem outermostRead_loses_last :
    (∀ fuel, outermostRead.ips.length ≤ fuel →
      contextLoop ⟨'?', 0⟩ (lineTable twoSequences) fuel
        (Istream.ofText (stackText ⟨fun _ => [], fun _ => []⟩ outermostRead)) []
        = .ok (stackFrames twoSequences outermostRead.ips.dropLast)) ∧
    ¬ EveryAddressResolved ⟨'?', 0⟩ twoSequences
      (stackText ⟨fun _ => [], fun _ => []⟩ outermostRead) outermostRead.ips :=
  stackText_loses_last _ _ _ outermostRead (by decide)

/-- Its only address is lost. -/
theorem outermostRead_not_resolved :
    ¬ EveryAddressResolved ⟨'?', 0⟩ twoSequences " 0x400110".toList [0x400110] := by
  rintro ⟨n, frames, hloop, hframes⟩
  obtain ⟨as, has, rfl⟩ := contextLoop_eq_ok hloop
  rw [has.unique (.last (by decide))] at hframes
  cases hframes

end PerVERT
