import PerVERT.Backend.Trace
import PerVERT.Core.Istream
import Mathlib.Data.List.TakeWhile
import Mathlib.Logic.Function.Iterate

/-!
# `Trace::parseLineFile`

The line file is what `objdump -WL` prints: which address belongs to which line of which file.
Seven lines are read first, then line after line is classified by how it begins.

* `rfind`, `substr` — the two members of `std::string` the parser cuts file names with.
* `parseLine`, `parseLineLoop`, `parseLineFile` — as the code runs them.
* `splitLines` — any text is lines that end in a newline, and a last one that does not.
* **`parseLineLoop_lines`**, **`parseLineFile_lines`**, **`parseLineFile_short`** — over such a text
  the loop is a fold over the complete lines, if there are seven of them to begin with.
-/

namespace PerVERT

/-! ## `std::string` -/

/-- `s.rfind(c)`.  `none` is `string::npos`. -/
def rfind (s : Text) (c : Char) : Option ℕ :=
  (s.reverse.findIdx? (· == c)).map fun i => s.length - 1 - i

/-- `a - b` on positions.  A difference below zero wraps, and is longer than every string, as
`npos` is. -/
def positionSub (a : Option ℕ) (b : ℕ) : Option ℕ :=
  a.bind fun a => if b ≤ a then some (a - b) else none

/-- The first `n` characters, or all there are. -/
def takeUpTo (n : Option ℕ) (s : Text) : Text :=
  match n with
  | some n => s.take n
  | none => s

/-- `s.substr(pos, n)`.  A start behind the end throws `std::out_of_range`. -/
def substr (s : Text) (pos : ℕ) (n : Option ℕ) : Checked Text :=
  if s.length < pos then .error .outOfRange else .ok (takeUpTo n (s.drop pos))

/-! ## The parser -/

/-- The location that `parseLineFile` puts before all rows. -/
def unknownLocation : Location := ⟨"UNKNOWN".toList, 0, 0⟩

/-- The variables of the loop and the member it fills.  `location` is declared outside, so what a
row fails to set keeps its value. -/
structure LineState where
  currentfile : Text
  location : Location
  locations : List Location

/-- The body of the loop, for a line that was read. -/
def parseLine (st : LineState) (line : Text) : LineState :=
  match line with
  -- Ignore empty lines
  | [] => st
  | c :: _ =>
      -- Ignore lines that begin UNKNOWN
      if 7 ≤ line.length ∧ line.take 7 = "UNKNOWN".toList then st
      -- Update the currentfile for lines that begin with path delimiters
      else if c = '.' ∨ c = '/' then
        -- `line.substr(0, n)` starts at the front, and does not throw
        { st with currentfile := takeUpTo (rfind line ':') line }
      -- Everything else is a location (ignore the short filename, use currentfile)
      else
        let (_, iss) := (Istream.ofText line).getWord []
        let (number, iss) := iss.getDec st.location.line
        let (address, _) := iss.getHex st.location.address
        let location := ⟨st.currentfile, number, address⟩
        { st with location, locations := st.locations ++ [location] }

/-- The loop of `parseLineFile`. -/
def parseLineLoop : ℕ → Istream → LineState → Checked LineState
  | 0, _, _ => .error .outOfFuel
  | n + 1, ifs, st =>
      let (line, ifs) := ifs.getline []
      if ifs.eof then pure st else parseLineLoop n ifs (parseLine st line)

/-- `Trace::parseLineFile`.  No text means that the file cannot be opened; `junk` is what the
variable `location` holds before the first row. -/
def parseLineFile (fuel : ℕ) (junk : Location) (file : Option Text) (p : Parsed) :
    Checked (Bool × Parsed) :=
  match file with
  | none => pure (false, p)
  | some text => do
      let p := { p with locations := p.locations ++ [unknownLocation] }
      -- Always discard the first seven lines (but record the file on line 6)
      let (ignore, ifs) := (Istream.ofText text).getline []
      let (ignore, ifs) := ifs.getline ignore
      let (ignore, ifs) := ifs.getline ignore
      let (ignore, ifs) := ifs.getline ignore
      let (ignore, ifs) := ifs.getline ignore
      let (currentfile, ifs) := ifs.getline []
      let (_, ifs) := ifs.getline ignore
      if ifs.eof then pure (true, p)
      else
        let currentfile ← substr currentfile 4 (positionSub (rfind currentfile ':') 4)
        let st ← parseLineLoop fuel ifs ⟨currentfile, junk, p.locations⟩
        pure (true, { p with locations := st.locations })

/-- The members the parsers fill, before they run. -/
def Parsed.empty : Parsed where
  okay := true
  locations := []
  contexts := fun _ => none
  events := []

/-! ## Lines -/

/-- Lines, each with its newline. -/
def unlines (lines : List Text) : Text := lines.flatMap (· ++ ['\n'])

lemma unlines_cons (line : Text) (lines : List Text) :
    unlines (line :: lines) = line ++ '\n' :: unlines lines := by
  simp [unlines]

/-- The lines of a text that end in a newline, and what is behind the last of them. -/
def splitLines : Text → List Text × Text
  | [] => ([], [])
  | c :: t =>
      let (lines, last) := splitLines t
      if c = '\n' then ([] :: lines, last)
      else
        match lines with
        | [] => ([], c :: last)
        | line :: lines => ((c :: line) :: lines, last)

/-- The lines of a text that end in a newline. -/
def completeLines (t : Text) : List Text := (splitLines t).1

/-- A text is its complete lines, and one more that has no newline. -/
lemma unlines_completeLines (t : Text) : t = unlines (completeLines t) ++ (splitLines t).2 ∧
    (∀ line ∈ completeLines t, '\n' ∉ line) ∧ '\n' ∉ (splitLines t).2 := by
  induction t with
  | nil => simp [completeLines, splitLines, unlines]
  | cons c t ih =>
      obtain ⟨heq, hlines, hlast⟩ := ih
      simp only [completeLines, splitLines] at heq hlines ⊢
      by_cases hc : c = '\n'
      · subst hc
        simp only [if_true, unlines_cons, List.nil_append, List.cons_append, ← heq]
        simpa [hlast] using hlines
      · rw [if_neg hc]
        cases hsplit : (splitLines t).1 with
        | nil =>
            rw [hsplit] at heq
            simp [unlines] at heq ⊢
            exact ⟨heq, Ne.symm hc, hlast⟩
        | cons line lines =>
            rw [hsplit] at heq hlines
            simp only [unlines_cons, List.cons_append, List.mem_cons, forall_eq_or_imp]
              at heq hlines ⊢
            exact ⟨congrArg _ heq, ⟨by simp [Ne.symm hc, hlines.1], hlines.2⟩, hlast⟩

/-- The stream behind a line. -/
def Istream.nextLine (s : Istream) : Istream := (s.getline []).2

lemma getline_snd (s : Istream) (old : Text) : (s.getline old).2 = s.nextLine := by
  simp only [Istream.nextLine, Istream.getline]
  split_ifs
  · rfl
  · cases s.rest.dropWhile (· ≠ '\n') <;> rfl

lemma nextLine_unlines {line rest : Text} (h : '\n' ∉ line) :
    (Istream.ofText (line ++ '\n' :: rest)).nextLine = Istream.ofText rest := by
  rw [Istream.nextLine, getline_spec h]

/-- The last line is read up to the end, -/
lemma nextLine_last {last : Text} (h : '\n' ∉ last) :
    (Istream.ofText last).nextLine.eof = true := by
  have hall : last.dropWhile (· ≠ '\n') = [] := by
    rw [List.dropWhile_eq_nil_iff]
    intro x hx
    simp only [decide_eq_true_eq]
    rintro rfl
    exact h hx
  simp only [Istream.nextLine, Istream.getline, Istream.ofText, Bool.or_self, Bool.false_eq_true,
    if_false, hall]

/-- and a stream that has seen the end has seen it. -/
lemma nextLine_eof {s : Istream} (h : s.eof = true) : s.nextLine.eof = true := by
  simp only [Istream.nextLine, Istream.getline, h, Bool.true_or, if_true]

/-- Reading more lines than there are sees the end. -/
lemma eof_of_lines_lt {last : Text} (hlast : '\n' ∉ last) : ∀ {n : ℕ} {lines : List Text},
    (∀ line ∈ lines, '\n' ∉ line) → lines.length < n →
    (Istream.nextLine^[n] (Istream.ofText (unlines lines ++ last))).eof = true := by
  have hstay : ∀ (n : ℕ) (s : Istream), s.eof = true → (Istream.nextLine^[n] s).eof = true := by
    intro n
    induction n with
    | zero => intro s h; exact h
    | succ n ih => intro s h; exact ih _ (nextLine_eof h)
  intro n
  induction n with
  | zero => intro lines _ h; exact absurd h (Nat.not_lt_zero _)
  | succ n ih =>
      intro lines hlines hn
      rw [Function.iterate_succ_apply]
      cases lines with
      | nil => exact hstay n _ (nextLine_last hlast)
      | cons line lines =>
          rw [unlines_cons, List.append_assoc, List.cons_append,
            nextLine_unlines (hlines line (by simp))]
          exact ih (fun l hl => hlines l (by simp [hl])) (Nat.lt_of_succ_lt_succ hn)

section Loop

variable {last : Text}

/-- **The loop is a fold over the complete lines.** -/
theorem parseLineLoop_lines (hlast : '\n' ∉ last) : ∀ {lines : List Text} {n : ℕ} (st : LineState),
    (∀ line ∈ lines, '\n' ∉ line) → lines.length < n →
    parseLineLoop n (Istream.ofText (unlines lines ++ last)) st = .ok (lines.foldl parseLine st)
  | [], n + 1, st, _, _ => by
      show (if (Istream.ofText last).nextLine.eof then pure st else _) = _
      rw [if_pos (nextLine_last hlast)]
      rfl
  | line :: lines, n + 1, st, hlines, hn => by
      have hline : '\n' ∉ line := hlines line (by simp)
      have hread := @getline_spec (unlines lines ++ last) line hline []
      rw [unlines_cons, List.append_assoc, List.cons_append, parseLineLoop, hread]
      exact parseLineLoop_lines hlast (parseLine st line) (fun l hl => hlines l (by simp [hl]))
        (Nat.lt_of_succ_lt_succ hn)

/-- The seven lines before the loop, and the loop. -/
lemma parseLineFile_lines (hlast : '\n' ∉ last) {fuel : ℕ} {junk : Location} {p : Parsed}
    {l₁ l₂ l₃ l₄ l₅ currentfile l₇ : Text} {lines : List Text}
    (hlines : ∀ line ∈ l₁ :: l₂ :: l₃ :: l₄ :: l₅ :: currentfile :: l₇ :: lines, '\n' ∉ line)
    (hn : lines.length < fuel) :
    parseLineFile fuel junk
        (some (unlines (l₁ :: l₂ :: l₃ :: l₄ :: l₅ :: currentfile :: l₇ :: lines) ++ last)) p
      = (substr currentfile 4 (positionSub (rfind currentfile ':') 4)).bind fun file =>
          .ok (true, { p with locations := (lines.foldl parseLine
            ⟨file, junk, p.locations ++ [unknownLocation]⟩).locations }) := by
  simp only [List.forall_mem_cons] at hlines
  obtain ⟨h₁, h₂, h₃, h₄, h₅, h₆, h₇, hrest⟩ := hlines
  simp only [parseLineFile, unlines_cons, List.append_assoc, List.cons_append, getline_spec h₁,
    getline_spec h₂, getline_spec h₃, getline_spec h₄, getline_spec h₅, getline_spec h₆,
    getline_spec h₇]
  simp only [Istream.ofText, Bool.false_eq_true, if_false]
  cases substr currentfile 4 (positionSub (rfind currentfile ':') 4) with
  | error e => rfl
  | ok file =>
      show (parseLineLoop fuel (Istream.ofText (unlines lines ++ last)) _).bind _ = _
      rw [parseLineLoop_lines hlast _ hrest hn]
      rfl

end Loop

/-- With fewer than seven complete lines there are no rows. -/
lemma parseLineFile_short {fuel : ℕ} {junk : Location} {p : Parsed} {text : Text}
    (hshort : (completeLines text).length < 7) : parseLineFile fuel junk (some text) p
      = .ok (true, { p with locations := p.locations ++ [unknownLocation] }) := by
  obtain ⟨heq, hlines, hlast⟩ := unlines_completeLines text
  have heof := eof_of_lines_lt hlast hlines hshort
  rw [← heq] at heof
  simp only [parseLineFile, getline_snd]
  exact if_pos heof

end PerVERT
