import PerVERT.Core.Istream

/-!
# JSON texts

What `JSON.parse` makes of a text, and rules that tell of a text what is read from it, whatever
comes behind.

* `JsValue`, `readChars`, `readNumber`, `readValue`, `parseJson` — the values and the parser.  Of
  the numbers it has the integers: a fraction or an exponent is not read.
* `Reads text value` — the parser takes `text` for `value`, and goes on behind it; `ReadsItems`,
  `ReadsMembers` for what stands between brackets and braces.
* `reads_string`, `reads_nat`, `reads_neg`, **`reads_array`**, **`reads_object`** — one rule for
  each kind of value, with blanks wherever they may stand.
* **`parseJson_of_reads`** — such a text is parsed as a whole.

The numbers count the rounds of the parser; a text has at most two for each of its characters.
-/

namespace PerVERT

/-! ## Values -/

/-- A value that JSON can name. -/
inductive JsValue
  | null
  | boolean (value : Bool)
  | number (value : ℤ)
  | string (value : Text)
  | array (values : List JsValue)
  | object (members : List (Text × JsValue))

/-- White space of JSON. -/
def isBlank (c : Char) : Bool := c = ' ' ∨ c = '\t' ∨ c = '\n' ∨ c = '\r'

/-! ## The parser -/

/-- What a backslash makes of the character behind it. -/
def escapes : List (Char × Char) :=
  [('"', '"'), ('\\', '\\'), ('/', '/'), ('b', '\x08'), ('f', '\x0c'), ('n', '\n'), ('r', '\r'),
    ('t', '\t')]

def unescape (e : Char) : Option Char := (escapes.find? fun p => p.1 = e).map Prod.snd

/-- The characters of a string, up to the quotation mark. -/
def readChars : Text → Option (Text × Text)
  | [] => none
  | c :: t =>
      if c = '"' then some ([], t)
      else if c = '\\' then
        match t with
        | [] => none
        | e :: t =>
            if e = 'u' then
              match t with
              | a :: b :: c :: d :: t =>
                  if [a, b, c, d].all isHexDigit then
                    (readChars t).map (Prod.map (Char.ofNat (hexValue [a, b, c, d]) :: ·) id)
                  else none
              | _ => none
            else (unescape e).bind fun c => (readChars t).map (Prod.map (c :: ·) id)
      else if c.toNat < 0x20 then none
      else (readChars t).map (Prod.map (c :: ·) id)

/-- The digits of a number. -/
def readDigits (t : Text) : Option (ℕ × Text) :=
  let digits := t.takeWhile Char.isDigit
  let rest := t.dropWhile Char.isDigit
  if digits = [] ∨ (digits.head? = some '0' ∧ digits ≠ ['0']) then none
  else if rest.head? ∈ [some '.', some 'e', some 'E'] then none
  else some (Nat.ofDigitChars 10 digits 0, rest)

/-- A number that begins with the character `c`. -/
def readNumber (c : Char) (t : Text) : Option (JsValue × Text) :=
  if c = '-' then (readDigits t).map (Prod.map (fun n : ℕ => .number (-n)) id)
  else (readDigits (c :: t)).map (Prod.map (fun n : ℕ => .number n) id)

/-- What comes behind the character `c`, and behind blanks before it. -/
def behind (c : Char) (t : Text) : Option Text :=
  match t.dropWhile isBlank with
  | [] => none
  | x :: t => if x = c then some t else none

/-- The rest of a literal. -/
def readWord (word : Text) (v : JsValue) (t : Text) : Option (JsValue × Text) :=
  if word <+: t then some (v, t.drop word.length) else none

mutual

/-- One value. -/
def readValue : ℕ → Text → Option (JsValue × Text)
  | 0, _ => none
  | n + 1, t =>
      match t.dropWhile isBlank with
      | [] => none
      | c :: t =>
          if c = '{' then
            match behind '}' t with
            | some t => some (.object [], t)
            | none => (readMembers n t).map (Prod.map .object id)
          else if c = '[' then
            match behind ']' t with
            | some t => some (.array [], t)
            | none => (readItems n t).map (Prod.map .array id)
          else if c = '"' then (readChars t).map (Prod.map .string id)
          else if c = 't' then readWord "rue".toList (.boolean true) t
          else if c = 'f' then readWord "alse".toList (.boolean false) t
          else if c = 'n' then readWord "ull".toList .null t
          else readNumber c t

/-- The values of an array that has one, and the bracket behind. -/
def readItems : ℕ → Text → Option (List JsValue × Text)
  | 0, _ => none
  | n + 1, t =>
      (readValue n t).bind fun (v, t) =>
        match behind ',' t with
        | some t => (readItems n t).map (Prod.map (v :: ·) id)
        | none => (behind ']' t).map fun t => ([v], t)

/-- The members of an object that has one, and the brace behind. -/
def readMembers : ℕ → Text → Option (List (Text × JsValue) × Text)
  | 0, _ => none
  | n + 1, t =>
      (behind '"' t).bind fun t =>
        (readChars t).bind fun (name, t) =>
          (behind ':' t).bind fun t =>
            (readValue n t).bind fun (v, t) =>
              match behind ',' t with
              | some t => (readMembers n t).map (Prod.map ((name, v) :: ·) id)
              | none => (behind '}' t).map fun t => ([(name, v)], t)

end

/-- `JSON.parse`. -/
def parseJson (t : Text) : Option JsValue :=
  match readValue (2 * t.length + 1) t with
  | some (v, rest) => if rest.all isBlank then some v else none
  | none => none

/-! ## Characters -/

/-- The characters `s` of a string are spelled `t`. -/
def Spells (s t : Text) : Prop := ∀ rest, readChars (t ++ '"' :: rest) = some (s, rest)

section Characters

variable {c e : Char} {s t : Text}

lemma spells_nil : Spells [] [] := by
  intro rest
  rw [List.nil_append, readChars.eq_def]
  rfl

lemma Spells.plain (h : Spells s t) (hquote : c ≠ '"') (hbackslash : c ≠ '\\')
    (hcontrol : 0x20 ≤ c.toNat) : Spells (c :: s) (c :: t) := by
  intro rest
  rw [List.cons_append, readChars.eq_def]
  simp only [if_neg hquote, if_neg hbackslash, if_neg (Nat.not_lt.mpr hcontrol), h rest]
  rfl

lemma Spells.escape (h : Spells s t) (he : unescape e = some c) :
    Spells (c :: s) ('\\' :: e :: t) := by
  have hu : e ≠ 'u' := by
    rintro rfl
    have hnone : unescape 'u' = none := by decide
    rw [hnone] at he
    cases he
  intro rest
  rw [List.cons_append, readChars.eq_def]
  simp only [List.cons_append, if_neg (show '\\' ≠ '"' by decide), if_true, if_neg hu, he,
    Option.bind_some, h rest]
  rfl

lemma Spells.unicode (h : Spells s t) {w x y z : Char}
    (hdigits : ∀ d ∈ [w, x, y, z], isHexDigit d = true)
    (hvalue : Char.ofNat (hexValue [w, x, y, z]) = c) :
    Spells (c :: s) ('\\' :: 'u' :: w :: x :: y :: z :: t) := by
  intro rest
  rw [List.cons_append, readChars.eq_def]
  simp only [List.cons_append, if_neg (show '\\' ≠ '"' by decide), if_true,
    List.all_eq_true.mpr hdigits, h rest, hvalue]
  rfl

end Characters

/-! ## What is read -/

/-- White space. -/
def Blank (t : Text) : Prop := ∀ c ∈ t, isBlank c = true

/-- What may come behind a value. -/
def Follows (t : Text) : Prop := ∀ c ∈ t.head?, isBlank c = true ∨ c ∈ [',', ']', '}']

/-- The parser takes the text for the value, whatever comes behind. -/
def Reads (t : Text) (v : JsValue) : Prop :=
  ∀ n rest, 2 * t.length < n → Follows rest → readValue n (t ++ rest) = some (v, rest)

/-- So for the values between brackets. -/
def ReadsItems (t : Text) (vs : List JsValue) : Prop :=
  ∀ n rest, 2 * t.length + 1 < n → readItems n (t ++ ']' :: rest) = some (vs, rest)

/-- So for the members between braces. -/
def ReadsMembers (t : Text) (members : List (Text × JsValue)) : Prop :=
  ∀ n rest, 2 * t.length + 1 < n → readMembers n (t ++ '}' :: rest) = some (members, rest)

section Blanks

variable {b t u rest : Text} {c x : Char} {n : ℕ} {v : JsValue}

lemma blank_nil : Blank [] := by simp [Blank]

lemma Blank.append (hb : Blank b) (hu : Blank u) : Blank (b ++ u) := by
  intro c hc
  rcases List.mem_append.mp hc with hc | hc
  · exact hb c hc
  · exact hu c hc

lemma dropWhile_blank (hb : Blank b) : (b ++ t).dropWhile isBlank = t.dropWhile isBlank :=
  List.dropWhile_append_of_pos hb

lemma behind_blank (hb : Blank b) : behind c (b ++ t) = behind c t := by
  rw [behind, dropWhile_blank hb, behind]

lemma behind_self (hc : isBlank c = false) : behind c (c :: t) = some t := by
  simp [behind, hc]

lemma behind_other (hx : isBlank x = false) (hne : x ≠ c) : behind c (x :: t) = none := by
  simp [behind, hx, hne]

lemma behind_unique (h : behind x t = some u) (hne : x ≠ c) : behind c t = none := by
  rw [behind] at h ⊢
  cases hdrop : t.dropWhile isBlank with
  | nil => rfl
  | cons y w =>
      simp only [hdrop] at h ⊢
      split_ifs at h with hy
      exact if_neg (hy ▸ hne)

lemma readValue_blank (hb : Blank b) : readValue n (b ++ t) = readValue n t := by
  cases n with
  | zero => rw [readValue, readValue]
  | succ n => rw [readValue, dropWhile_blank hb, readValue]

lemma Follows.of_blank (hb : Blank b) (hrest : Follows rest) : Follows (b ++ rest) := by
  cases b with
  | nil => exact hrest
  | cons c b =>
      intro x hx
      simp only [List.cons_append, List.head?_cons, Option.mem_def, Option.some.injEq] at hx
      exact Or.inl (hx ▸ hb c List.mem_cons_self)

lemma follows_cons (hc : c ∈ [',', ']', '}']) : Follows (c :: rest) := by
  intro x hx
  simp only [List.head?_cons, Option.mem_def, Option.some.injEq] at hx
  exact Or.inr (hx ▸ hc)

/-- Blanks before a value. -/
lemma Reads.blank (h : Reads t v) (hb : Blank b) : Reads (b ++ t) v := by
  intro n rest hn hrest
  rw [List.append_assoc, readValue_blank hb]
  refine h n rest ?_ hrest
  simp only [List.length_append] at hn
  omega

/-- A value does not begin with what closes an array or an object. -/
lemma readValue_closing (hc : c ∈ [']', '}']) (hbehind : behind c t = some rest) :
    readValue n t = none := by
  cases n with
  | zero => rw [readValue]
  | succ n =>
      rw [readValue]
      rw [behind] at hbehind
      cases hdrop : t.dropWhile isBlank with
      | nil => rfl
      | cons x u =>
          simp only [hdrop] at hbehind ⊢
          split_ifs at hbehind with hx
          subst hx
          simp only [List.mem_cons, List.not_mem_nil, or_false] at hc
          rcases hc with rfl | rfl <;> simp [readNumber, readDigits]

lemma behind_of_readValue (hc : c ∈ [']', '}']) (h : readValue n t ≠ none) :
    behind c t = none := by
  cases hbehind : behind c t with
  | none => rfl
  | some rest => exact absurd (readValue_closing hc hbehind) h

/-- What is read as items begins with a value. -/
lemma readItems_value {vs : List JsValue} (h : readItems (n + 1) t = some (vs, rest)) :
    readValue n t ≠ none := by
  intro hnone
  rw [readItems, hnone] at h
  cases h

end Blanks

/-! ## The rules -/

section Rules

variable {b b' b'' t u s k : Text} {v : JsValue} {vs : List JsValue}
  {members : List (Text × JsValue)}

lemma exists_succ {m n : ℕ} (h : m < n) : ∃ n', n = n' + 1 ∧ m ≤ n' := by
  cases n with
  | zero => omega
  | succ n => exact ⟨n, rfl, by omega⟩

/-- **Strings.** -/
theorem reads_string (h : Spells s t) : Reads ('"' :: (t ++ ['"'])) (.string s) := by
  intro n rest hn _
  obtain ⟨n, rfl, -⟩ := exists_succ hn
  have hchars := h rest
  simp [readValue, isBlank, hchars]

lemma reads_true : Reads "true".toList (.boolean true) := by
  intro n rest hn _
  obtain ⟨n, rfl, -⟩ := exists_succ hn
  simp [readValue, isBlank, readWord]

lemma reads_false : Reads "false".toList (.boolean false) := by
  intro n rest hn _
  obtain ⟨n, rfl, -⟩ := exists_succ hn
  simp [readValue, isBlank, readWord]

/-- A number is printed without leading zeros. -/
lemma head?_showDec (m : ℕ) (h : (showDec m).head? = some '0') : m = 0 := by
  induction m using Nat.strongRecOn with
  | ind m ih =>
      rw [showDec, Nat.toDigits_eq_if (by decide)] at h
      split_ifs at h with hlt
      · have hdigit : ∀ d < 10, Nat.digitChar d = '0' → d = 0 := by decide
        simp only [List.head?_cons, Option.some.injEq] at h
        exact hdigit m hlt h
      · have hne : Nat.toDigits 10 (m / 10) ≠ [] := Nat.toDigits_ne_nil
        rw [List.head?_append_of_ne_nil _ hne] at h
        have hzero := ih (m / 10) (by omega) h
        omega

/-- The digits of a number are read, and no more. -/
lemma readDigits_showDec (m : ℕ) {rest : Text} (hrest : Follows rest) :
    readDigits (showDec m ++ rest) = some (m, rest) := by
  have hdigits : ∀ x ∈ showDec m, x.isDigit = true :=
    fun x hx => Nat.isDigit_of_mem_toDigits (by decide) (by decide) hx
  have hvalue : Nat.ofDigitChars 10 (showDec m) 0 = m :=
    Nat.ofDigitChars_toDigits (by decide) (by decide)
  have hne : showDec m ≠ [] := Nat.toDigits_ne_nil
  have hzero : ¬ ((showDec m).head? = some '0' ∧ showDec m ≠ ['0']) := by
    rintro ⟨hhead, hlong⟩
    rw [head?_showDec m hhead] at hlong
    exact hlong rfl
  have hstop : ∀ c ∈ rest.head?, c.isDigit = false ∧ c ∉ ['.', 'e', 'E'] := by
    intro c hc
    rcases hrest c hc with hblank | hmem
    · simp only [isBlank, decide_eq_true_eq] at hblank
      rcases hblank with rfl | rfl | rfl | rfl <;> decide
    · simp only [List.mem_cons, List.not_mem_nil, or_false] at hmem
      rcases hmem with rfl | rfl | rfl <;> decide
  have hspan : (showDec m ++ rest).takeWhile Char.isDigit = showDec m ∧
      (showDec m ++ rest).dropWhile Char.isDigit = rest := by
    cases rest with
    | nil =>
        rw [List.takeWhile_append_of_pos hdigits, List.dropWhile_append_of_pos hdigits]
        exact ⟨List.append_nil _, rfl⟩
    | cons c rest =>
        have hc := (hstop c rfl).1
        exact ⟨takeWhile_append_cons hdigits hc, dropWhile_append_cons hdigits hc⟩
  have hfraction : rest.head? ∉ [some '.', some 'e', some 'E'] := by
    cases rest with
    | nil => simp
    | cons c rest => simpa using (hstop c rfl).2
  simp only [readDigits, hspan.1, hspan.2, hvalue, hne, false_or, if_neg hzero, if_neg hfraction]

/-- **Numbers.** -/
theorem reads_nat (m : ℕ) : Reads (showDec m) (.number m) := by
  intro n rest hn hrest
  obtain ⟨n, rfl, -⟩ := exists_succ hn
  have hread := readDigits_showDec m hrest
  cases hshow : showDec m with
  | nil => exact absurd hshow Nat.toDigits_ne_nil
  | cons d ds =>
      have hd : d.isDigit = true :=
        Nat.isDigit_of_mem_toDigits (by decide) (by decide) (hshow ▸ List.mem_cons_self)
      have hother : isBlank d = false ∧ d ∉ ['{', '[', '"', 't', 'f', 'n', '-'] := by
        constructor
        · by_contra hblank
          simp only [isBlank, Bool.not_eq_false, decide_eq_true_eq] at hblank
          rcases hblank with rfl | rfl | rfl | rfl <;> revert hd <;> decide
        · simp only [List.mem_cons, List.not_mem_nil, or_false]
          rintro (rfl | rfl | rfl | rfl | rfl | rfl | rfl) <;> revert hd <;> decide
      rw [hshow, List.cons_append] at hread
      simp only [List.mem_cons, List.not_mem_nil, or_false, not_or] at hother
      simp [readValue, hother, readNumber, hread]

theorem reads_neg (m : ℕ) : Reads ('-' :: showDec m) (.number (-m)) := by
  intro n rest hn hrest
  obtain ⟨n, rfl, -⟩ := exists_succ hn
  simp [readValue, isBlank, readNumber, readDigits_showDec m hrest]

/-- Blanks, and what an array or an object goes on with. -/
lemma behind_after (hb : Blank b) {c : Char} (hc : isBlank c = false) (t : Text) :
    behind c (b ++ c :: t) = some t := by
  rw [behind_blank hb, behind_self hc]

lemma behind_not (hb : Blank b) {c x : Char} (hx : isBlank x = false) (hne : x ≠ c) (t : Text) :
    behind c (b ++ x :: t) = none := by
  rw [behind_blank hb, behind_other hx hne]

/-- **The last item.** -/
theorem readsItems_one (h : Reads t v) (hb : Blank b) : ReadsItems (t ++ b) [v] := by
  intro n rest hn
  obtain ⟨n, rfl, hle⟩ := exists_succ hn
  simp only [List.length_append] at hle
  have hfollows : Follows (b ++ ']' :: rest) := Follows.of_blank hb (follows_cons (by decide))
  rw [readItems, List.append_assoc, h n _ (by omega) hfollows]
  simp [behind_after hb, behind_not hb, isBlank]

/-- **An item before others.** -/
theorem readsItems_cons (h : Reads t v) (hb : Blank b) (hitems : ReadsItems u vs) :
    ReadsItems (t ++ (b ++ ',' :: u)) (v :: vs) := by
  intro n rest hn
  obtain ⟨n, rfl, hle⟩ := exists_succ hn
  simp only [List.length_append, List.length_cons] at hle
  have hfollows : Follows (b ++ ',' :: (u ++ ']' :: rest)) :=
    Follows.of_blank hb (follows_cons (by decide))
  have hrest := hitems n rest (by omega)
  rw [readItems]
  simp only [List.append_assoc, List.cons_append]
  rw [h n _ (by omega) hfollows]
  simp [behind_after hb, isBlank, hrest]

/-- **Arrays.** -/
theorem reads_array (h : ReadsItems t vs) : Reads ('[' :: (t ++ [']'])) (.array vs) := by
  intro n rest hn _
  obtain ⟨n, rfl, hle⟩ := exists_succ hn
  obtain ⟨n, rfl, -⟩ := exists_succ hle
  simp only [List.length_append, List.length_cons, List.length_nil] at hle
  have hitems := h (n + 1) rest (by omega)
  have hopen : behind ']' (t ++ ']' :: rest) = none :=
    behind_of_readValue (by decide) (readItems_value hitems)
  simp [readValue, isBlank, hopen, hitems]

lemma reads_array_nil (hb : Blank b) : Reads ('[' :: (b ++ [']'])) (.array []) := by
  intro n rest hn _
  obtain ⟨n, rfl, -⟩ := exists_succ hn
  simp [readValue, isBlank, behind_after hb]

/-- A member, up to its value. -/
lemma readMembers_member (hb : Blank b) (hname : Spells s k) (hb' : Blank b') (n : ℕ)
    (rest : Text) :
    readMembers (n + 1) (b ++ '"' :: (k ++ '"' :: (b' ++ ':' :: rest)))
      = (readValue n rest).bind fun (v, t) =>
          match behind ',' t with
          | some t => (readMembers n t).map (Prod.map ((s, v) :: ·) id)
          | none => (behind '}' t).map fun t => ([(s, v)], t) := by
  rw [readMembers, behind_after hb (by decide), Option.bind_some, hname, Option.bind_some]
  simp only [behind_after hb' (show isBlank ':' = false by decide), Option.bind_some]

/-- **The last member.** -/
theorem readsMembers_one (hb : Blank b) (hname : Spells s k) (hb' : Blank b') (h : Reads t v)
    (hb'' : Blank b'') :
    ReadsMembers (b ++ '"' :: (k ++ '"' :: (b' ++ ':' :: (t ++ b'')))) [(s, v)] := by
  intro n rest hn
  obtain ⟨n, rfl, hle⟩ := exists_succ hn
  simp only [List.length_append, List.length_cons] at hle
  have hfollows : Follows (b'' ++ '}' :: rest) := Follows.of_blank hb'' (follows_cons (by decide))
  simp only [List.append_assoc, List.cons_append]
  rw [readMembers_member hb hname hb', h n _ (by omega) hfollows]
  simp [behind_after hb'', behind_not hb'', isBlank]

/-- **A member before others.** -/
theorem readsMembers_cons (hb : Blank b) (hname : Spells s k) (hb' : Blank b') (h : Reads t v)
    (hb'' : Blank b'') (hmembers : ReadsMembers u members) :
    ReadsMembers (b ++ '"' :: (k ++ '"' :: (b' ++ ':' :: (t ++ (b'' ++ ',' :: u)))))
      ((s, v) :: members) := by
  intro n rest hn
  obtain ⟨n, rfl, hle⟩ := exists_succ hn
  simp only [List.length_append, List.length_cons] at hle
  have hfollows : Follows (b'' ++ ',' :: (u ++ '}' :: rest)) :=
    Follows.of_blank hb'' (follows_cons (by decide))
  have hrest := hmembers n rest (by omega)
  simp only [List.append_assoc, List.cons_append]
  rw [readMembers_member hb hname hb', h n _ (by omega) hfollows]
  simp [behind_after hb'', isBlank, hrest]

/-- **Objects.** -/
theorem reads_object (h : ReadsMembers t members) :
    Reads ('{' :: (t ++ ['}'])) (.object members) := by
  intro n rest hn _
  obtain ⟨n, rfl, hle⟩ := exists_succ hn
  obtain ⟨n, rfl, -⟩ := exists_succ hle
  simp only [List.length_append, List.length_cons, List.length_nil] at hle
  have hread := h (n + 1) rest (by omega)
  have hopen : behind '}' (t ++ '}' :: rest) = none := by
    cases hquote : behind '"' (t ++ '}' :: rest) with
    | some u => exact behind_unique hquote (by decide)
    | none =>
        rw [readMembers, hquote] at hread
        cases hread
  simp [readValue, isBlank, hopen, hread]

lemma reads_object_nil (hb : Blank b) : Reads ('{' :: (b ++ ['}'])) (.object []) := by
  intro n rest hn _
  obtain ⟨n, rfl, -⟩ := exists_succ hn
  simp [readValue, isBlank, behind_after hb]

/-- **The whole text**, with blanks behind. -/
theorem parseJson_of_reads (h : Reads t v) (hb : Blank b) : parseJson (t ++ b) = some v := by
  have hfollows : Follows b := by
    have hnil : Follows [] := by simp [Follows]
    simpa using Follows.of_blank hb hnil
  rw [parseJson, h _ b (by simp only [List.length_append]; omega) hfollows]
  exact if_pos (List.all_eq_true.mpr hb)

end Rules

end PerVERT
