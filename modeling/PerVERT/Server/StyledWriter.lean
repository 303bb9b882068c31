import PerVERT.Core.JsonText
import PerVERT.Server.PervertLayer
import Mathlib.Algebra.Ring.Nat

/-!
# JSON answers

`StyledWriter` writes a value on several lines, and an array on one when it is short and flat.

* `StyledWriter`, `valueToString`, `valueToQuotedString`, `StyledWriter.writeValue` ..
  `StyledWriter.write` — as the code runs them.
* `Json.toJs` — what a client is to see of a value.
* `spells_quoted` — strings; `writeChildren_flat` — the values of an array on one line;
  `writeValue_reads` — every value, wherever the writer stands.
* **`write_parses`** — the text that is written is parsed to the value, whatever its layout.
-/

namespace PerVERT

/-! ## The writer -/

/-- The members of `StyledWriter`. -/
structure StyledWriter where
  document_ : Text
  indentString_ : Text
  childValues_ : List Text
  addChildValues_ : Bool
  deriving DecidableEq, Repr

def rightMargin_ : ℤ := 74

def indentSize_ : ℕ := 3

/-- `valueToString(Int)`: `-value` overflows for the least one. -/
def valueToString (value : ℤ) : Checked Text := do
  let magnitude ← intAbs value
  pure (if value < 0 then '-' :: showDec magnitude.toNat else showDec magnitude.toNat)

def isControlCharacter (c : Char) : Bool := 0 < c.toNat ∧ c.toNat ≤ 0x1F

/-- `std::hex << std::uppercase << std::setfill('0') << std::setw(4)`. -/
def showHex4 (n : ℕ) : Text := List.leftpad 4 '0' ((Nat.toDigits 16 n).map Char.toUpper)

/-- One round of the loop of `valueToQuotedString`. -/
def escapeChar (c : Char) : Text :=
  if c = '"' then ['\\', '"']
  else if c = '\\' then ['\\', '\\']
  else if c = '\x08' then ['\\', 'b']
  else if c = '\x0c' then ['\\', 'f']
  else if c = '\n' then ['\\', 'n']
  else if c = '\r' then ['\\', 'r']
  else if c = '\t' then ['\\', 't']
  else if isControlCharacter c then '\\' :: 'u' :: showHex4 c.toNat
  else [c]

/-- `valueToQuotedString`, of what `asCString` shows of a value. -/
def valueToQuotedString (value : Text) : Text :=
  let value := cString value
  if value.any (fun c => c ∈ "\"\\\x08\x0c\n\r\t".toList ∨ isControlCharacter c) then
    '"' :: (value.flatMap escapeChar ++ ['"'])
  else '"' :: (value ++ ['"'])

namespace StyledWriter

def pushValue (w : StyledWriter) (value : Text) : StyledWriter :=
  if w.addChildValues_ then { w with childValues_ := w.childValues_ ++ [value] }
  else { w with document_ := w.document_ ++ value }

def writeIndent (w : StyledWriter) : StyledWriter :=
  match w.document_.getLast? with
  | none => { w with document_ := w.document_ ++ w.indentString_ }
  | some last =>
      if last = ' ' then w
      else if last ≠ '\n' then { w with document_ := w.document_ ++ '\n' :: w.indentString_ }
      else { w with document_ := w.document_ ++ w.indentString_ }

def writeWithIndent (w : StyledWriter) (value : Text) : StyledWriter :=
  let w := w.writeIndent
  { w with document_ := w.document_ ++ value }

def indent (w : StyledWriter) : StyledWriter :=
  { w with indentString_ := w.indentString_ ++ List.replicate indentSize_ ' ' }

def unindent (w : StyledWriter) : Checked StyledWriter := do
  assertC (indentSize_ ≤ toInt w.indentString_.length) "int(indentString_.size()) >= indentSize_"
  pure { w with indentString_ := w.indentString_.take (w.indentString_.length - indentSize_) }

/-- `isArray() || isObject()`, and `size() > 0`. -/
def hasParts : Json → Bool
  | .array values => !values.isEmpty
  | .object members => !members.isEmpty
  | _ => false

/-- The loop over `childValues_`, when the array is too long for one line. -/
def writeChildValues (w : StyledWriter) : List Text → StyledWriter
  | [] => w
  | [value] => w.writeWithIndent value
  | value :: values =>
      let w := w.writeWithIndent value
      writeChildValues { w with document_ := w.document_ ++ [','] } values

/-- `isMultineArray`.  `writeChildren` writes the values of the array and adds up their lengths. -/
def isMultineArray (w : StyledWriter) (values : List Json)
    (writeChildren : StyledWriter → ℤ → Checked (StyledWriter × ℤ)) :
    Checked (Bool × StyledWriter) := do
  let size := toInt values.length
  let width ← intMul size 3
  let w := { w with childValues_ := [] }
  if rightMargin_ ≤ width ∨ (values.take size.toNat).any hasParts then pure (true, w)
  -- `reserve(size)` throws
  else if size < 0 then .error .outOfRange
  else do
    let last ← intAdd size (-1)
    let gaps ← intMul last 2
    let lineLength ← intAdd 4 gaps
    let (w, lineLength) ← writeChildren { w with addChildValues_ := true } lineLength
    pure (rightMargin_ ≤ lineLength, { w with addChildValues_ := false })

/-- The loop of `writeArrayValue` over several lines. -/
def writeLines (w : StyledWriter) (childValues : List Text)
    (writeItems : StyledWriter → Checked StyledWriter) : Checked StyledWriter :=
  let hasChildValue := childValues ≠ []
  if hasChildValue then pure (w.writeChildValues childValues) else writeItems w

/-- `writeArrayValue`, with the two loops over the values of the array. -/
def writeArrayValue (w : StyledWriter) (values : List Json)
    (writeChildren : StyledWriter → ℤ → Checked (StyledWriter × ℤ))
    (writeItems : StyledWriter → Checked StyledWriter) : Checked StyledWriter :=
  if values = [] then pure (w.pushValue "[]".toList)
  else do
    let (isArrayMultiLine, w) ← w.isMultineArray values writeChildren
    if isArrayMultiLine then do
      let w ← (w.writeWithIndent ['[']).indent.writeLines w.childValues_ writeItems
      let w ← w.unindent
      pure (w.writeWithIndent [']'])
    else do
      assertC (w.childValues_.length = values.length) "childValues_.size() == size"
      pure { w with document_ :=
        w.document_ ++ ("[ ".toList ++ ", ".toList.intercalate w.childValues_ ++ " ]".toList) }

/-- The case `objectValue` of `writeValue`, with its loop. -/
def writeObjectValue (w : StyledWriter) (members : List (Text × Json))
    (writeMembers : StyledWriter → Checked StyledWriter) : Checked StyledWriter :=
  if members = [] then pure (w.pushValue "{}".toList)
  else do
    let w ← writeMembers (w.writeWithIndent ['{']).indent
    let w ← w.unindent
    pure (w.writeWithIndent ['}'])

mutual

/-- `writeValue`. -/
def writeValue (w : StyledWriter) : Json → Checked StyledWriter
  | .int value => do
      let text ← valueToString value
      pure (w.pushValue text)
  | .uint value => pure (w.pushValue (showDec value))
  | .bool value => pure (w.pushValue (if value then "true".toList else "false".toList))
  | .string value => pure (w.pushValue (valueToQuotedString value))
  | .array values =>
      w.writeArrayValue values (fun w lineLength => w.writeChildren lineLength 0 values)
        fun w => w.writeItems values
  | .object members => w.writeObjectValue members fun w => w.writeMembers members

/-- The loop of `isMultineArray`, from place `index` on. -/
def writeChildren (w : StyledWriter) (lineLength : ℤ) (index : ℕ) :
    List Json → Checked (StyledWriter × ℤ)
  | [] => pure (w, lineLength)
  | value :: values => do
      let w ← w.writeValue value
      let text ← vectorAt w.childValues_ index
      let lineLength ← intAdd lineLength (toInt text.length)
      w.writeChildren lineLength (index + 1) values

/-- The loop of `writeArrayValue` over values that were not written before. -/
def writeItems (w : StyledWriter) : List Json → Checked StyledWriter
  | [] => pure w
  | value :: values => do
      let w ← w.writeIndent.writeValue value
      if values = [] then pure w
      else ({ w with document_ := w.document_ ++ [','] } : StyledWriter).writeItems values

/-- The loop over the members of an object. -/
def writeMembers (w : StyledWriter) : List (Text × Json) → Checked StyledWriter
  | [] => pure w
  | (name, value) :: members => do
      let w := w.writeWithIndent (valueToQuotedString name)
      let w ← ({ w with document_ := w.document_ ++ " : ".toList } : StyledWriter).writeValue value
      if members = [] then pure w
      else ({ w with document_ := w.document_ ++ [','] } : StyledWriter).writeMembers members

end

/-- `write`. -/
def write (root : Json) : Checked Text := do
  let w ← writeValue ⟨[], [], [], false⟩ root
  pure (w.document_ ++ ['\n'])

end StyledWriter

/-! ## What the client is to see -/

mutual

/-- The value of JavaScript for a `Json::Value`. -/
def Json.toJs : Json → JsValue
  | .int value => .number value
  | .uint value => .number value
  | .bool value => .boolean value
  | .string value => .string value
  | .array values => .array (Json.toJsValues values)
  | .object members => .object (Json.toJsMembers members)

def Json.toJsValues : List Json → List JsValue
  | [] => []
  | value :: values => value.toJs :: Json.toJsValues values

def Json.toJsMembers : List (Text × Json) → List (Text × JsValue)
  | [] => []
  | (name, value) :: members => (name, value.toJs) :: Json.toJsMembers members

end

/-- An `int` that has an opposite. -/
def Negatable (value : ℤ) : Prop := -2 ^ 31 < value ∧ value < 2 ^ 31

instance (value : ℤ) : Decidable (Negatable value) := inferInstanceAs (Decidable (_ ∧ _))

/-- A text that ends where its `char*` does, and whose quoted form has a length well within an
`int`. -/
def Quotable (value : Text) : Prop := '\x00' ∉ value ∧ value.length < 2 ^ 23

instance (value : Text) : Decidable (Quotable value) := inferInstanceAs (Decidable (_ ∧ _))

mutual

/-- What the writer can write with so many blanks before it. -/
def Json.PlainAt (indent : ℕ) : Json → Prop
  | .int value => Negatable value
  | .uint value => value < 2 ^ 32
  | .bool _ => True
  | .string value => Quotable value
  | .array values => 3 * values.length < 2 ^ 31 ∧ indent + indentSize_ < 2 ^ 31 ∧
      Json.PlainValues (indent + indentSize_) values
  | .object members => indent + indentSize_ < 2 ^ 31 ∧
      Json.PlainMembers (indent + indentSize_) members

def Json.PlainValues (indent : ℕ) : List Json → Prop
  | [] => True
  | value :: values => value.PlainAt indent ∧ Json.PlainValues indent values

def Json.PlainMembers (indent : ℕ) : List (Text × Json) → Prop
  | [] => True
  | (name, value) :: members =>
      Quotable name ∧ value.PlainAt indent ∧ Json.PlainMembers indent members

end

/-- Every `int` has an opposite, no text has a NUL in it or is as long as 2^23, no array has more
than 715827882 values, and nothing is nested deeper than that. -/
def Json.Plain (value : Json) : Prop := value.PlainAt 0

/-! ## Scalars -/

section Scalars

variable {c : Char} {s t : Text} {x : ℤ}

lemma cString_of_not_mem (h : '\x00' ∉ s) : cString s = s := by
  rw [cString, List.takeWhile_eq_self_iff]
  intro c hc
  simp only [decide_eq_true_eq]
  rintro rfl
  exact h hc

lemma showHex4_eq : ∀ n < 32, showHex4 n = ['0', '0', (Nat.digitChar (n / 16)).toUpper,
    (Nat.digitChar (n % 16)).toUpper] := by decide

lemma hexValue_showHex4 : ∀ n < 32, hexValue (showHex4 n) = n := by decide

lemma isHexDigit_showHex4 : ∀ n < 32, (showHex4 n).all isHexDigit = true := by decide

lemma le_toNat_of_printable (hc : c ≠ '\x00') (hcontrol : isControlCharacter c ≠ true) :
    0x20 ≤ c.toNat := by
  have hzero : c.toNat ≠ 0 := by
    intro h
    apply hc
    rw [← Char.ofNat_toNat c, h]
  simp only [isControlCharacter, ne_eq, decide_eq_true_eq] at hcontrol
  omega

/-- **One character.** -/
lemma Spells.escapeChar (h : Spells s t) (hc : c ≠ '\x00') :
    Spells (c :: s) (escapeChar c ++ t) := by
  rw [PerVERT.escapeChar]
  split_ifs with hquote hbackslash hb hf hn hr ht hcontrol
  · exact h.escape (by subst hquote; decide)
  · exact h.escape (by subst hbackslash; decide)
  · exact h.escape (by subst hb; decide)
  · exact h.escape (by subst hf; decide)
  · exact h.escape (by subst hn; decide)
  · exact h.escape (by subst hr; decide)
  · exact h.escape (by subst ht; decide)
  · have hlt : c.toNat < 32 := by
      simp only [isControlCharacter, decide_eq_true_eq] at hcontrol
      omega
    have hvalue := hexValue_showHex4 _ hlt
    have hdigits := List.all_eq_true.mp (isHexDigit_showHex4 _ hlt)
    rw [showHex4_eq _ hlt] at hvalue hdigits ⊢
    exact h.unicode hdigits (by rw [hvalue, Char.ofNat_toNat])
  · exact h.plain hquote hbackslash (le_toNat_of_printable hc hcontrol)

lemma spells_flatMap (h : '\x00' ∉ s) : Spells s (s.flatMap escapeChar) := by
  induction s with
  | nil => exact spells_nil
  | cons c s ih =>
      simp only [List.mem_cons, not_or] at h
      rw [List.flatMap_cons]
      exact (ih h.2).escapeChar (Ne.symm h.1)

/-- Characters that need no escape. -/
lemma spells_self (h : '\x00' ∉ s) (hplain : ¬ s.any (fun c =>
    c ∈ "\"\\\x08\x0c\n\r\t".toList ∨ isControlCharacter c) = true) : Spells s s := by
  induction s with
  | nil => exact spells_nil
  | cons c s ih =>
      simp only [List.mem_cons, not_or] at h
      simp only [List.any_cons, Bool.or_eq_true, decide_eq_true_eq, not_or] at hplain
      obtain ⟨⟨hspecial, hcontrol⟩, hrest⟩ := hplain
      refine (ih h.2 hrest).plain ?_ ?_ (le_toNat_of_printable (Ne.symm h.1) hcontrol)
      · rintro rfl
        exact hspecial (by decide)
      · rintro rfl
        exact hspecial (by decide)

/-- **Quoted text** spells the text. -/
theorem spells_quoted (h : '\x00' ∉ s) :
    ∃ t, Spells s t ∧ valueToQuotedString s = '"' :: (t ++ ['"']) := by
  rw [valueToQuotedString, cString_of_not_mem h]
  split_ifs with hspecial
  · exact ⟨_, spells_flatMap h, rfl⟩
  · exact ⟨s, spells_self h hspecial, rfl⟩

lemma length_escapeChar (c : Char) : (escapeChar c).length ≤ 6 := by
  rw [escapeChar]
  split_ifs with hquote hbackslash hb hf hn hr ht hcontrol
  any_goals simp
  have hlt : c.toNat < 32 := by
    simp only [isControlCharacter, decide_eq_true_eq] at hcontrol
    omega
  simp [showHex4_eq _ hlt]

lemma length_flatMap_escapeChar (s : Text) : (s.flatMap escapeChar).length ≤ 6 * s.length := by
  induction s with
  | nil => simp
  | cons c s ih =>
      have hc := length_escapeChar c
      rw [List.flatMap_cons, List.length_append, List.length_cons]
      omega

/-- No quoted text is too long, -/
lemma length_quoted (h : Quotable s) : (valueToQuotedString s).length < 2 ^ 26 := by
  have hescaped := length_flatMap_escapeChar s
  have hlength := h.2
  rw [valueToQuotedString, cString_of_not_mem h.1]
  split_ifs
  · simp only [List.length_cons, List.length_append, List.length_nil]
    omega
  · simp only [List.length_cons, List.length_append, List.length_nil]
    omega

/-- and no number is long. -/
lemma length_showDec {n : ℕ} (h : n < 2 ^ 32) : (showDec n).length ≤ 10 :=
  (Nat.length_toDigits_le_iff (by decide) (by decide)).mpr (lt_trans h (by decide))

/-- **Numbers.** -/
lemma valueToString_reads (h : Negatable x) :
    ∃ t, valueToString x = .ok t ∧ Reads t (.number x) ∧ t.length < 2 ^ 26 := by
  have hlength : (showDec x.natAbs).length ≤ 10 := by
    rw [Negatable] at h
    exact length_showDec (by omega)
  have hin : InInt x.natAbs := by
    rw [InInt]
    rw [Negatable] at h
    omega
  simp only [valueToString, intAbs, if_pos hin, checked_ok_bind, Int.toNat_natCast]
  split_ifs with hneg
  · refine ⟨_, rfl, ?_⟩
    have hvalue : x = -(x.natAbs : ℤ) := by omega
    refine ⟨?_, by rw [List.length_cons]; omega⟩
    rw [hvalue, Int.natAbs_neg, Int.natAbs_natCast]
    exact reads_neg x.natAbs
  · refine ⟨_, rfl, ?_⟩
    have hvalue : x = (x.natAbs : ℤ) := by omega
    refine ⟨?_, by omega⟩
    rw [hvalue, Int.natAbs_natCast]
    exact reads_nat x.natAbs

end Scalars

/-! ## Layout -/

namespace StyledWriter

/-- The writer writes to its document, and indents with white space. -/
structure Ready (w : StyledWriter) : Prop where
  blank : Blank w.indentString_
  adds : w.addChildValues_ = false

section Layout

variable {w w' : StyledWriter} {t : Text}

lemma blank_replicate (n : ℕ) : Blank (List.replicate n ' ') := by
  intro c hc
  rw [List.eq_of_mem_replicate hc]
  rfl

lemma writeIndent_spec (h : w.Ready) :
    ∃ b, Blank b ∧ w.writeIndent = { w with document_ := w.document_ ++ b } := by
  rw [writeIndent]
  split
  · exact ⟨_, h.blank, rfl⟩
  · split_ifs
    · exact ⟨[], blank_nil, by simp⟩
    · refine ⟨'\n' :: w.indentString_, ?_, rfl⟩
      exact Blank.append (b := ['\n']) (by simp [Blank, isBlank]) h.blank
    · exact ⟨_, h.blank, rfl⟩

lemma writeWithIndent_spec (h : w.Ready) (t : Text) :
    ∃ b, Blank b ∧ w.writeWithIndent t = { w with document_ := w.document_ ++ (b ++ t) } := by
  obtain ⟨b, hb, heq⟩ := writeIndent_spec h
  exact ⟨b, hb, by rw [writeWithIndent, heq, List.append_assoc]⟩

lemma pushValue_ready (h : w.Ready) : w.pushValue t = { w with document_ := w.document_ ++ t } := by
  rw [pushValue, h.adds]
  rfl

/-- Only the document has grown, and perhaps the values of an array were remembered. -/
def Grown (w w' : StyledWriter) (t : Text) : Prop :=
  w'.document_ = w.document_ ++ t ∧ w'.indentString_ = w.indentString_ ∧ w'.addChildValues_ = false

/-- Whatever is in the document then, the writer is ready again. -/
lemma Grown.ready_of (hgrown : Grown w w' t) (h : Blank w.indentString_) {u : Text} :
    Ready { w' with document_ := u } :=
  ⟨hgrown.2.1 ▸ h, hgrown.2.2⟩

/-- Between the brackets or braces of several lines. -/
lemma enclosed (h : w.Ready) (hroom : w.indentString_.length + indentSize_ < 2 ^ 31)
    (opening closing : Char) {f : StyledWriter → Checked StyledWriter} {P : Text → Prop}
    (hf : ∀ w₁, w₁.Ready → w₁.indentString_.length = w.indentString_.length + indentSize_ →
      ∃ w₂ u, f w₁ = .ok w₂ ∧ Grown w₁ w₂ u ∧ P u) :
    ∃ w' b u b', (do let w ← f (w.writeWithIndent [opening]).indent
                     let w ← w.unindent
                     pure (w.writeWithIndent [closing])) = .ok w' ∧
      Blank b ∧ P u ∧ Blank b' ∧ Grown w w' (b ++ opening :: (u ++ b' ++ [closing])) := by
  obtain ⟨b, hb, hopen⟩ := writeWithIndent_spec h [opening]
  rw [hopen]
  have hready : (indent { w with document_ := w.document_ ++ (b ++ [opening]) }).Ready :=
    ⟨h.blank.append (blank_replicate _), h.adds⟩
  obtain ⟨w₂, u, hw₂, hgrown, hu⟩ := hf _ hready (by simp [indent])
  have hindent : w₂.indentString_ = w.indentString_ ++ List.replicate indentSize_ ' ' := hgrown.2.1
  have hlength : (indentSize_ : ℤ) ≤ toInt w₂.indentString_.length := by
    have hsize : w₂.indentString_.length = w.indentString_.length + indentSize_ := by simp [hindent]
    rw [toInt_of_inInt (by rw [InInt]; omega)]
    omega
  have hshorter : w₂.indentString_.take (w₂.indentString_.length - indentSize_)
      = w.indentString_ := by
    simp [hindent]
  rw [hw₂, checked_ok_bind, unindent, hshorter]
  simp only [hlength, decide_true, assertC, if_true, checked_ok_bind, pure, Except.pure]
  obtain ⟨b', hb', hclose⟩ := @writeWithIndent_spec { w₂ with indentString_ := w.indentString_ }
    ⟨h.blank, hgrown.2.2⟩ [closing]
  refine ⟨_, b, u, b', congrArg _ hclose, hb, hu, hb', ?_, rfl, hgrown.2.2⟩
  simp [hgrown.1, indent]

end Layout

/-! ## Arrays on one line -/

section Flat

variable {w : StyledWriter} {v : Json} {values : List Json} {vs : List JsValue}

/-- **A value without parts** is remembered. -/
lemma writeValue_flat {indent : ℕ} (hflat : hasParts v = false) (hplain : v.PlainAt indent)
    (hadds : w.addChildValues_ = true) :
    ∃ t, w.writeValue v = .ok { w with childValues_ := w.childValues_ ++ [t] } ∧
      Reads t v.toJs ∧ t.length < 2 ^ 26 := by
  have hpush : ∀ t, w.pushValue t = { w with childValues_ := w.childValues_ ++ [t] } := by
    intro t
    rw [pushValue, hadds]
    rfl
  cases v with
  | int x =>
      obtain ⟨t, ht, hreads⟩ := valueToString_reads (x := x) hplain
      refine ⟨t, ?_, hreads⟩
      rw [writeValue, ht, checked_ok_bind, hpush]
      rfl
  | uint x =>
      have hlength := length_showDec (n := x) hplain
      exact ⟨_, by rw [writeValue, hpush]; rfl, reads_nat x, by omega⟩
  | bool value =>
      cases value with
      | true => exact ⟨_, by rw [writeValue, hpush]; rfl, reads_true, by decide⟩
      | false => exact ⟨_, by rw [writeValue, hpush]; rfl, reads_false, by decide⟩
  | string s =>
      have hquotable : Quotable s := hplain
      obtain ⟨t, ht, hquoted⟩ := spells_quoted hquotable.1
      have hlength := length_quoted hquotable
      rw [hquoted] at hlength
      exact ⟨_, by rw [writeValue, hpush, hquoted]; rfl, reads_string ht, hlength⟩
  | array values =>
      obtain rfl : values = [] := by simpa [hasParts] using hflat
      refine ⟨_, by rw [writeValue, writeArrayValue, if_pos rfl, hpush]; rfl, ?_, by decide⟩
      exact reads_array_nil blank_nil
  | object members =>
      obtain rfl : members = [] := by simpa [hasParts] using hflat
      refine ⟨_, by rw [writeValue, writeObjectValue, if_pos rfl, hpush]; rfl, ?_, by decide⟩
      exact reads_object_nil blank_nil

/-- **All values** of a flat array are remembered, in their order, and the line is not too long for
an `int`. -/
lemma writeChildren_flat {indent lineLength size : ℕ} (hflat : values.any hasParts = false)
    (hplain : Json.PlainValues indent values) (hadds : w.addChildValues_ = true)
    (hsize : 2 ^ 26 ≤ size) (hroom : lineLength + size * values.length < 2 ^ 31) :
    ∃ ts lineLength', w.writeChildren lineLength w.childValues_.length values
        = .ok ({ w with childValues_ := w.childValues_ ++ ts }, lineLength') ∧
      List.Forall₂ Reads ts (Json.toJsValues values) := by
  induction values generalizing w lineLength with
  | nil => exact ⟨[], lineLength, by simp [writeChildren, pure, Except.pure], List.Forall₂.nil⟩
  | cons v values ih =>
      simp only [List.any_cons, Bool.or_eq_false_iff] at hflat
      rw [List.length_cons, Nat.mul_succ] at hroom
      obtain ⟨t, ht, hreads, hlength⟩ := writeValue_flat (w := w) hflat.1 hplain.1 hadds
      obtain ⟨ts, lineLength', hts, hall⟩ :=
        @ih { w with childValues_ := w.childValues_ ++ [t] } (lineLength + t.length) hflat.2
          hplain.2 hadds (by omega)
      have htext : vectorAt (w.childValues_ ++ [t]) w.childValues_.length = .ok t :=
        vectorAt_of_getElem? List.getElem?_concat_length
      have hadd :
          intAdd (lineLength : ℤ) (toInt t.length) = .ok ((lineLength + t.length : ℕ) : ℤ) :=
        intAdd_eq_ok.mpr (by
          rw [toInt_of_inInt (by rw [InInt]; omega), InInt]
          omega)
      rw [List.length_append, List.length_singleton] at hts
      refine ⟨t :: ts, lineLength', ?_, List.Forall₂.cons hreads hall⟩
      rw [writeChildren, ht, checked_ok_bind]
      show (vectorAt (w.childValues_ ++ [t]) w.childValues_.length >>= fun text =>
        intAdd lineLength (toInt text.length) >>= fun lineLength =>
          writeChildren { w with childValues_ := w.childValues_ ++ [t] } lineLength
            (w.childValues_.length + 1) values) = _
      rw [htext, checked_ok_bind, hadd, checked_ok_bind, hts, List.append_assoc]
      rfl

/-- The items of one line. -/
lemma readsItems_intercalate {ts : List Text} (h : List.Forall₂ Reads ts vs) (hne : ts ≠ [])
    {b b' : Text} (hb : Blank b) (hb' : Blank b') :
    ReadsItems (b ++ (", ".toList.intercalate ts ++ b')) vs := by
  induction h generalizing b with
  | nil => exact absurd rfl hne
  | @cons t v ts vs ht hts ih =>
      cases ts with
      | nil =>
          obtain rfl : vs = [] := by simpa using hts
          simpa [List.intercalate] using readsItems_one (ht.blank hb) hb'
      | cons t' ts =>
          have hspace : Blank [' '] := by simp [Blank, isBlank]
          have hrest := ih (by simp) hspace
          have hcons := readsItems_cons (ht.blank hb) blank_nil hrest
          simpa [List.intercalate] using hcons

/-- The items of several lines, when they were remembered. -/
lemma writeChildValues_spec {ts : List Text} (h : List.Forall₂ Reads ts vs) (hne : ts ≠ [])
    (hw : w.Ready) : ∃ u, Grown w (w.writeChildValues ts) u ∧
      ∀ b, Blank b → ReadsItems (u ++ b) vs := by
  induction h generalizing w with
  | nil => exact absurd rfl hne
  | @cons t v ts vs ht hts ih =>
      obtain ⟨b₀, hb₀, heq⟩ := writeWithIndent_spec hw t
      cases ts with
      | nil =>
          obtain rfl : vs = [] := by simpa using hts
          refine ⟨b₀ ++ t, ?_, fun b hb => readsItems_one (ht.blank hb₀) hb⟩
          rw [writeChildValues, heq]
          exact ⟨rfl, rfl, hw.adds⟩
      | cons t' ts =>
          obtain ⟨u, hgrown, hitems⟩ := ih (by simp)
            (w := { w with document_ := w.document_ ++ (b₀ ++ t) ++ [','] }) ⟨hw.blank, hw.adds⟩
          refine ⟨b₀ ++ t ++ ',' :: u, ?_, fun b hb => ?_⟩
          · rw [writeChildValues, heq]
            · refine ⟨?_, hgrown.2⟩
              rw [hgrown.1]
              simp
            · simp
          · simpa using readsItems_cons (ht.blank hb₀) blank_nil (hitems b hb)

end Flat

/-! ## Every value -/

section Values

variable {w : StyledWriter} {values : List Json}

/-- An array was remembered whole, or not at all. -/
lemma isMultineArray_spec {indent : ℕ} (hsize : 3 * values.length < 2 ^ 31)
    (hplain : Json.PlainValues indent values) (hw : w.Ready) :
    ∃ multi ts, w.isMultineArray values (fun w lineLength => w.writeChildren lineLength 0 values)
        = .ok (multi, { w with childValues_ := ts }) ∧
      ((multi = true ∧ ts = []) ∨ List.Forall₂ Reads ts (Json.toJsValues values)) := by
  have hint : toInt values.length = values.length := toInt_of_inInt (by rw [InInt]; omega)
  have hwidth : intMul values.length 3 = .ok (values.length * 3 : ℤ) :=
    intMul_eq_ok.mpr ⟨by rw [InInt]; omega, rfl⟩
  simp only [isMultineArray, hint, hwidth, checked_ok_bind, Int.toNat_natCast, List.take_length]
  split_ifs with hlong hneg
  · exact ⟨true, [], rfl, Or.inl ⟨rfl, rfl⟩⟩
  · omega
  · simp only [not_or, Bool.not_eq_true, rightMargin_] at hlong
    have hshort : values.length ≤ 24 := by omega
    -- a flat array that is not empty, and one that is
    obtain ⟨lineLength, hline⟩ : ∃ n : ℕ, (n : ℤ) = 4 + (values.length + -1) * 2 :=
      ⟨(4 + ((values.length : ℤ) + -1) * 2).toNat, by omega⟩
    have hlast : intAdd values.length (-1) = .ok ((values.length : ℤ) + -1) :=
      intAdd_eq_ok.mpr ⟨by rw [InInt]; omega, rfl⟩
    have hgaps : intMul ((values.length : ℤ) + -1) 2 = .ok (((values.length : ℤ) + -1) * 2) :=
      intMul_eq_ok.mpr ⟨by rw [InInt]; omega, rfl⟩
    have hfirst : intAdd 4 (((values.length : ℤ) + -1) * 2) = .ok (lineLength : ℤ) :=
      intAdd_eq_ok.mpr ⟨by rw [InInt]; omega, hline⟩
    obtain ⟨ts, lineLength', hts, hall⟩ :=
      @writeChildren_flat { w with childValues_ := [], addChildValues_ := true } values indent
        lineLength (2 ^ 26) hlong.2 hplain rfl (le_refl _) (by omega)
    refine ⟨rightMargin_ ≤ lineLength', ts, ?_, Or.inr hall⟩
    simp only [List.length_nil, List.nil_append] at hts
    simp only [hlast, hgaps, hfirst, checked_ok_bind, hts, hw.adds]
    rfl

lemma length_toJsValues : (Json.toJsValues values).length = values.length := by
  induction values with
  | nil => rfl
  | cons v values ih => simp [Json.toJsValues, ih]

/-- **Arrays**, given the loop over their values. -/
lemma writeArrayValue_reads (hplain : (Json.array values).PlainAt w.indentString_.length)
    (hw : w.Ready)
    (hitems : values ≠ [] → ∀ w₁ : StyledWriter, w₁.Ready →
      w₁.indentString_.length = w.indentString_.length + indentSize_ → ∃ w₂ u,
      w₁.writeItems values = .ok w₂ ∧ Grown w₁ w₂ u ∧
        ∀ b, Blank b → ReadsItems (u ++ b) (Json.toJsValues values)) :
    ∃ w' b t, w.writeValue (.array values) = .ok w' ∧ Blank b ∧
      Reads t (Json.array values).toJs ∧ Grown w w' (b ++ t) := by
  rw [writeValue, writeArrayValue, Json.toJs]
  split_ifs with hnil
  · subst hnil
    refine ⟨_, [], _, rfl, blank_nil, reads_array_nil blank_nil, ?_⟩
    rw [pushValue_ready hw]
    exact ⟨rfl, rfl, hw.adds⟩
  · obtain ⟨multi, ts, hspec, hts⟩ := isMultineArray_spec hplain.1 hplain.2.2 hw
    have hready : Ready { w with childValues_ := ts } := ⟨hw.blank, hw.adds⟩
    rw [hspec, checked_ok_bind]
    have hremembered : ts ≠ [] → List.Forall₂ Reads ts (Json.toJsValues values) := by
      intro hne
      rcases hts with ⟨-, rfl⟩ | hts
      · exact absurd rfl hne
      · exact hts
    cases multi with
    | true =>
        obtain ⟨w', b, u, b', hrun, hb, hu, hb', hgrown⟩ := enclosed hready hplain.2.1 '[' ']'
          (P := fun u => ∀ b, Blank b → ReadsItems (u ++ b) (Json.toJsValues values))
          (f := fun w => w.writeLines ts fun w => w.writeItems values)
          (fun w₁ hw₁ hindent => by
            by_cases hne : ts ≠ []
            · obtain ⟨u, hgrown, hu⟩ := writeChildValues_spec (hremembered hne) hne hw₁
              exact ⟨_, u, if_pos hne, hgrown, hu⟩
            · obtain ⟨w₂, u, hrun, hgrown, hu⟩ := hitems hnil w₁ hw₁ hindent
              exact ⟨w₂, u, (if_neg hne).trans hrun, hgrown, hu⟩)
        exact ⟨w', b, _, hrun, hb, reads_array (hu b' hb'), hgrown⟩
    | false =>
        have hall : List.Forall₂ Reads ts (Json.toJsValues values) := by simpa using hts
        have hlength : ts.length = values.length := hall.length_eq.trans length_toJsValues
        have hne : ts ≠ [] := by
          rintro rfl
          exact hnil (List.length_eq_zero_iff.mp hlength.symm)
        have hspace : Blank [' '] := by simp [Blank, isBlank]
        refine ⟨{ w with
            document_ := w.document_ ++ ("[ ".toList ++ ", ".toList.intercalate ts ++ " ]".toList)
            childValues_ := ts }, [], _, ?_, blank_nil,
          reads_array (readsItems_intercalate hall hne hspace hspace), ?_, rfl, hw.adds⟩
        · simp only [Bool.false_eq_true, if_false, hlength, decide_true, assertC, if_true,
            checked_ok_bind, pure, Except.pure]
        · simp

/-- What is pushed is written where the writer stands. -/
lemma pushed_reads {v : Json} {t : Text} (hw : w.Ready)
    (hrun : w.writeValue v = .ok (w.pushValue t)) (hreads : Reads t v.toJs) :
    ∃ w' b t, w.writeValue v = .ok w' ∧ Blank b ∧ Reads t v.toJs ∧ Grown w w' (b ++ t) := by
  refine ⟨_, [], t, hrun, blank_nil, hreads, ?_⟩
  rw [pushValue_ready hw]
  exact ⟨rfl, rfl, hw.adds⟩

/-- **Objects**, given the loop over their members. -/
lemma writeObjectValue_reads {members : List (Text × Json)} (hw : w.Ready)
    (hroom : w.indentString_.length + indentSize_ < 2 ^ 31)
    (hmembers : members ≠ [] → ∀ w₁ : StyledWriter, w₁.Ready →
      w₁.indentString_.length = w.indentString_.length + indentSize_ → ∃ w₂ u,
      w₁.writeMembers members = .ok w₂ ∧ Grown w₁ w₂ u ∧
        ∀ b, Blank b → ReadsMembers (u ++ b) (Json.toJsMembers members)) :
    ∃ w' b t, w.writeValue (.object members) = .ok w' ∧ Blank b ∧
      Reads t (Json.object members).toJs ∧ Grown w w' (b ++ t) := by
  rw [writeValue, writeObjectValue, Json.toJs]
  split_ifs with hnil
  · subst hnil
    refine ⟨_, [], _, rfl, blank_nil, reads_object_nil blank_nil, ?_⟩
    rw [pushValue_ready hw]
    exact ⟨rfl, rfl, hw.adds⟩
  · obtain ⟨w', b, u, b', hrun, hb, hu, hb', hgrown⟩ := enclosed hw hroom '{' '}' (hmembers hnil)
    exact ⟨w', b, _, hrun, hb, reads_object (hu b' hb'), hgrown⟩

mutual

/-- **Every value** is written where the writer stands, in a text that reads as the value. -/
theorem writeValue_reads : ∀ (v : Json) (w : StyledWriter), v.PlainAt w.indentString_.length →
    w.Ready → ∃ w' b t,
    w.writeValue v = .ok w' ∧ Blank b ∧ Reads t v.toJs ∧ Grown w w' (b ++ t)
  | .int x, w, hplain, hw => by
      obtain ⟨t, ht, hreads, -⟩ := valueToString_reads (x := x) hplain
      refine pushed_reads hw ?_ hreads
      rw [writeValue, ht]
      rfl
  | .uint x, w, _, hw => by
      refine pushed_reads hw ?_ (reads_nat x)
      rw [writeValue]
      rfl
  | .bool true, w, _, hw => by
      refine pushed_reads hw ?_ reads_true
      rw [writeValue]
      rfl
  | .bool false, w, _, hw => by
      refine pushed_reads hw ?_ reads_false
      rw [writeValue]
      rfl
  | .string s, w, hplain, hw => by
      have hquotable : Quotable s := hplain
      obtain ⟨t, ht, hquoted⟩ := spells_quoted hquotable.1
      refine pushed_reads hw ?_ (reads_string ht)
      rw [writeValue, hquoted]
      rfl
  | .array values, w, hplain, hw =>
      writeArrayValue_reads hplain hw fun hne w₁ hw₁ hindent =>
        writeItems_reads values w₁ (hindent ▸ hplain.2.2) hne hw₁
  | .object members, w, hplain, hw =>
      writeObjectValue_reads hw hplain.1 fun hne w₁ hw₁ hindent =>
        writeMembers_reads members w₁ (hindent ▸ hplain.2) hne hw₁

theorem writeItems_reads : ∀ (values : List Json) (w : StyledWriter),
    Json.PlainValues w.indentString_.length values → values ≠ [] → w.Ready →
    ∃ w' u, w.writeItems values = .ok w' ∧ Grown w w' u ∧
      ∀ b, Blank b → ReadsItems (u ++ b) (Json.toJsValues values)
  | [], _, _, hne, _ => absurd rfl hne
  | v :: values, w, hplain, _, hw => by
      obtain ⟨b₀, hb₀, hindent⟩ := writeIndent_spec hw
      obtain ⟨w₁, b₁, t, hrun, hb₁, hreads, hgrown⟩ := writeValue_reads v
        { w with document_ := w.document_ ++ b₀ } hplain.1 ⟨hw.blank, hw.adds⟩
      have hitem : Reads (b₀ ++ (b₁ ++ t)) v.toJs := (hreads.blank hb₁).blank hb₀
      rw [writeItems, hindent, hrun, checked_ok_bind]
      by_cases hnil : values = []
      · subst hnil
        refine ⟨w₁, b₀ ++ (b₁ ++ t), if_pos rfl, ?_, fun b hb => readsItems_one hitem hb⟩
        exact ⟨by simp [hgrown.1], hgrown.2⟩
      · have hrest : Json.PlainValues w₁.indentString_.length values := hgrown.2.1 ▸ hplain.2
        obtain ⟨w₂, u, hrest, hgrown', hitems⟩ := writeItems_reads values
          { w₁ with document_ := w₁.document_ ++ [','] } hrest hnil (hgrown.ready_of hw.blank)
        refine ⟨w₂, b₀ ++ (b₁ ++ t) ++ ',' :: u, (if_neg hnil).trans hrest, ?_, fun b hb => ?_⟩
        · refine ⟨?_, hgrown'.2.1.trans hgrown.2.1, hgrown'.2.2⟩
          rw [hgrown'.1, hgrown.1]
          simp
        · simpa [Json.toJsValues] using readsItems_cons hitem blank_nil (hitems b hb)

theorem writeMembers_reads : ∀ (members : List (Text × Json)) (w : StyledWriter),
    Json.PlainMembers w.indentString_.length members → members ≠ [] → w.Ready →
    ∃ w' u, w.writeMembers members = .ok w' ∧ Grown w w' u ∧
      ∀ b, Blank b → ReadsMembers (u ++ b) (Json.toJsMembers members)
  | [], _, _, hne, _ => absurd rfl hne
  | (name, v) :: members, w, hplain, _, hw => by
      obtain ⟨k, hk, hquoted⟩ := spells_quoted hplain.1.1
      obtain ⟨b₀, hb₀, hindent⟩ := writeWithIndent_spec hw (valueToQuotedString name)
      obtain ⟨w₁, b₁, t, hrun, hb₁, hreads, hgrown⟩ := writeValue_reads v
        { w with document_ := w.document_ ++ (b₀ ++ valueToQuotedString name) ++ " : ".toList }
        hplain.2.1 ⟨hw.blank, hw.adds⟩
      have hspace : Blank [' '] := by simp [Blank, isBlank]
      have hvalue : Reads (' ' :: (b₁ ++ t)) v.toJs := (hreads.blank hb₁).blank hspace
      have hmember : ∀ u : Text, b₀ ++ valueToQuotedString name ++ " : ".toList ++ (b₁ ++ t) ++ u
          = b₀ ++ '"' :: (k ++ '"' :: ([' '] ++ ':' :: (' ' :: (b₁ ++ t) ++ u))) := by
        intro u
        simp [hquoted]
      rw [writeMembers, hindent]
      simp only
      rw [hrun, checked_ok_bind]
      by_cases hnil : members = []
      · subst hnil
        refine ⟨w₁, b₀ ++ valueToQuotedString name ++ " : ".toList ++ (b₁ ++ t), if_pos rfl, ?_,
          fun b hb => ?_⟩
        · exact ⟨by simp [hgrown.1], hgrown.2⟩
        · rw [hmember]
          exact readsMembers_one hb₀ hk hspace hvalue hb
      · have hrest : Json.PlainMembers w₁.indentString_.length members :=
          hgrown.2.1 ▸ hplain.2.2
        obtain ⟨w₂, u, hrest, hgrown', hitems⟩ := writeMembers_reads members
          { w₁ with document_ := w₁.document_ ++ [','] } hrest hnil (hgrown.ready_of hw.blank)
        refine ⟨w₂, b₀ ++ valueToQuotedString name ++ " : ".toList ++ (b₁ ++ t) ++ ',' :: u,
          (if_neg hnil).trans hrest, ?_, fun b hb => ?_⟩
        · refine ⟨?_, hgrown'.2.1.trans hgrown.2.1, hgrown'.2.2⟩
          rw [hgrown'.1, hgrown.1]
          simp
        · rw [List.append_assoc, List.cons_append, hmember]
          exact readsMembers_cons hb₀ hk hspace hvalue blank_nil (hitems b hb)

end

/-- **The text that is written**, up to its last line break, spells the value. -/
lemma write_reads (hplain : v.Plain) :
    ∃ t, write v = .ok (t ++ ['\n']) ∧ Reads t v.toJs := by
  obtain ⟨w', b, t, hrun, hb, hreads, hgrown⟩ :=
    writeValue_reads v ⟨[], [], [], false⟩ hplain ⟨blank_nil, rfl⟩
  refine ⟨b ++ t, ?_, hreads.blank hb⟩
  rw [write, hrun, checked_ok_bind, hgrown.1]
  rfl

/-- **The answer is read back.**  The writer returns, no assertion of it fails and no `int` in it
overflows, and a client that parses the text has the value, on however many lines it stands.  The
value has to be plain: its numbers and texts are such that the writer has a spelling for them, and
no array, text or depth of nesting reaches a size that its `int`s cannot count. -/
theorem write_parses (v : Json) (hplain : v.Plain) :
    ∃ text, write v = .ok text ∧ parseJson text = some v.toJs := by
  obtain ⟨t, hrun, hreads⟩ := write_reads hplain
  exact ⟨_, hrun, parseJson_of_reads hreads (by simp [Blank, isBlank])⟩

/-- An array that is too long for one line, in an object. -/
theorem longArray_parses : ∃ text,
    write (.object [("histo".toList, .array (List.replicate 25 (.int (-7)))),
      ("na\"me".toList, .array [.string "\x01\\".toList, .uint 0])]) = .ok text ∧
    parseJson text = some (.object [("histo".toList, .array (List.replicate 25 (.number (-7)))),
      ("na\"me".toList, .array [.string "\x01\\".toList, .number 0])]) :=
  write_parses _ (by
    simp [Json.Plain, Json.PlainAt, Json.PlainMembers, Json.PlainValues, Negatable, Quotable,
      indentSize_])

end Values

end StyledWriter

end PerVERT
