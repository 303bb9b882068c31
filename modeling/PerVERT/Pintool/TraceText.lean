import PerVERT.Pintool.Recorder
import PerVERT.Core.Istream

/-!
# The text of a trace

What the recorder prints for each record, and what tells two call stacks apart in it.

* `Record.text`, `traceText` — the lines, and the `E` that `Fini` adds.
* `stackText` — the rest of a line after the arguments: the instruction pointer and the stack.
* **`stackText_eq_iff`** — when all instruction pointers are known, two such texts are equal
  exactly when the pointers are.
-/

namespace PerVERT

/-! ## Printing -/

/-- The letter of a record. -/
def RecordBody.letter : RecordBody → Char
  | .M _ _ => 'M'
  | .F _ => 'F'
  | .R _ => 'R'
  | .W _ => 'W'

/-- The letter and the arguments, up to the instruction pointer. -/
def RecordBody.text : RecordBody → Text
  | .M addr endAddr =>
      "M ".toList ++ showHex addr.toNat ++ " ".toList ++ showHex endAddr.toNat ++ " ".toList
  | .F addr => "F ".toList ++ showHex addr.toNat ++ " ".toList
  | .R addr => "R ".toList ++ showHex addr.toNat ++ " ".toList
  | .W addr => "W ".toList ++ showHex addr.toNat ++ " ".toList

/-- A line of the trace file. -/
def Record.text (sym : Symbols) (r : Record) : Text :=
  r.body.text ++ showHex r.ip.toNat ++ dumpStack sym r.stack ++ ['\n']

/-- The trace file once `Fini` has closed it. -/
def traceText (sym : Symbols) (records : List Record) : Text :=
  records.flatMap (Record.text sym) ++ "E \n".toList

/-! ## The stack text -/

/-- The instruction pointers of a record, its own first. -/
def Record.ips (r : Record) : List UInt64 := r.ip :: r.stack.map Activation.ip

/-- The rest of the line after the arguments. -/
def stackText (sym : Symbols) (r : Record) : Text :=
  ' ' :: showHex r.ip.toNat ++ dumpStack sym r.stack

/-- Every instruction pointer is known. -/
def Record.IpsKnown (r : Record) : Prop := r.ip ≠ 0 ∧ ∀ a ∈ r.stack, a.ip ≠ 0

instance (r : Record) : Decidable r.IpsKnown := inferInstanceAs (Decidable (_ ∧ _))

lemma record_text (sym : Symbols) (r : Record) : r.text sym = r.body.letter ::
    match r.body with
    | .M addr endAddr => [' '] ++ (showHex addr.toNat ++ ' ' :: (showHex endAddr.toNat ++
        (stackText sym r ++ ['\n'])))
    | .F addr | .R addr | .W addr =>
        [' '] ++ (showHex addr.toNat ++ (stackText sym r ++ ['\n'])) := by
  cases hbody : r.body <;> simp [Record.text, hbody, RecordBody.text, RecordBody.letter, stackText]

/-- A list of numbers, each after a space. -/
def hexWords (xs : List UInt64) : Text := xs.flatMap fun x => ' ' :: showHex x.toNat

/-- With every pointer known, no routine name is printed. -/
lemma stackText_eq_hexWords (sym : Symbols) {r : Record} (h : r.IpsKnown) :
    stackText sym r = hexWords r.ips := by
  have hdump : dumpStack sym r.stack = hexWords (r.stack.map Activation.ip) := by
    rw [dumpStack, hexWords, List.flatMap_map]
    refine List.flatMap_congr fun a ha => ?_
    rw [target2RtnName, if_neg (h.2 a ha)]
  rw [stackText, hdump]
  simp [hexWords, Record.ips]

lemma space_notMem_showHex (n : ℕ) : ' ' ∉ showHex n := by
  intro h
  rcases mem_showHex h with h | h
  · revert h; decide
  · revert h; decide

lemma hexWords_cons_inj {x y : UInt64} {xs ys : List UInt64}
    (h : hexWords (x :: xs) = hexWords (y :: ys)) : x = y ∧ hexWords xs = hexWords ys := by
  have hword : ∀ (n : ℕ) (zs : List UInt64),
      (showHex n ++ hexWords zs).takeWhile (· ≠ ' ') = showHex n ∧
        (showHex n ++ hexWords zs).dropWhile (· ≠ ' ') = hexWords zs := by
    intro n zs
    have hall : ∀ c ∈ showHex n, (decide (c ≠ ' ')) = true := by
      intro c hc
      simp only [decide_eq_true_eq]
      rintro rfl
      exact space_notMem_showHex n hc
    rw [List.takeWhile_append_of_pos hall, List.dropWhile_append_of_pos hall]
    cases zs <;> simp [hexWords]
  have htail : showHex x.toNat ++ hexWords xs = showHex y.toNat ++ hexWords ys := by
    simpa [hexWords] using h
  obtain ⟨hx, hxs⟩ := hword x.toNat xs
  obtain ⟨hy, hys⟩ := hword y.toNat ys
  rw [htail] at hx hxs
  exact ⟨UInt64.toNat_inj.mp (showHex_injective (hx.symm.trans hy)), hxs.symm.trans hys⟩

/-- **Numbers printed after spaces can be told apart.** -/
theorem hexWords_injective : ∀ {xs ys : List UInt64}, hexWords xs = hexWords ys → xs = ys
  | [], [], _ => rfl
  | [], y :: ys, h => by cases h
  | x :: xs, [], h => by cases h
  | x :: xs, y :: ys, h => by
      obtain ⟨rfl, htail⟩ := hexWords_cons_inj h
      rw [hexWords_injective htail]

/-- **When stack texts are equal.** -/
theorem stackText_eq_iff (sym : Symbols) {r r' : Record} (h : r.IpsKnown) (h' : r'.IpsKnown) :
    stackText sym r = stackText sym r' ↔ r.ips = r'.ips := by
  rw [stackText_eq_hexWords sym h, stackText_eq_hexWords sym h']
  exact ⟨hexWords_injective, fun heq => by rw [heq]⟩

lemma newline_notMem_stackText (sym : Symbols) {r : Record} (h : r.IpsKnown) :
    '\n' ∉ stackText sym r := by
  rw [stackText_eq_hexWords sym h]
  intro hmem
  obtain ⟨x, -, hx⟩ := List.mem_flatMap.mp hmem
  rcases List.mem_cons.mp hx with heq | hx
  · revert heq; decide
  · rcases mem_showHex hx with h | h
    · revert h; decide
    · revert h; decide

end PerVERT
