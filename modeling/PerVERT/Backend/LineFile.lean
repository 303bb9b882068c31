import PerVERT.Backend.ParseLine
import PerVERT.Core.Scan
import Mathlib.Data.List.Basic

/-!
# Line files as `objdump` prints them

A line file is a preamble and one block per compilation unit: a `CU:` line, the column headers, and
rows, path headers, `UNKNOWN` lines and empty lines in any order.

* `LineFile`, `LineFile.text` — such a file, and its text.
* `LineFile.locations` — what it says: the rows, each with the file named last before it.
* `parseLine_row`, `parseLine_path`, … — what the parser makes of each kind of line.
* **`parseLineFile_located`** — the parser gets the locations right when there is one unit and no
  short name begins like another kind of line; the files for which it gets them right otherwise are
  among those that break both conditions.

Only the first `CU:` line and the column headers below it are skipped by their position.  Those of
a later unit are taken for rows.
-/

namespace PerVERT

/-! ## The format -/

/-- `<short name> <line> <address>`, in columns. -/
structure LineRow where
  name : Text
  name_ne : name ≠ []
  name_word : name.any isSpace = false
  number : UInt32
  address : UInt64
  /-- The blanks before the line number and before the address, beyond the first. -/
  gap₁ : ℕ
  gap₂ : ℕ

/-- Blanks. -/
def blanks (n : ℕ) : Text := List.replicate n ' '

def LineRow.text (r : LineRow) : Text :=
  r.name ++ ' ' :: (blanks r.gap₁ ++ (showDec r.number.toNat ++
    ' ' :: (blanks r.gap₂ ++ showHex r.address.toNat)))

/-- A line below the column headers. -/
inductive LineItem
  | row (r : LineRow)
  /-- `UNKNOWN: length 2` and its like. -/
  | unknown (rest : Text) (hrest : '\n' ∉ rest)
  | empty
  /-- `./list1.cc:[++]`, or without the mark. -/
  | path (file : Text) (hfile : '\n' ∉ file) (hhead : file.head? = some '.' ∨ file.head? = some '/')
      (marked : Bool)

def LineItem.text : LineItem → Text
  | .row r => r.text
  | .unknown rest _ => "UNKNOWN".toList ++ rest
  | .empty => []
  | .path file _ _ marked => file ++ ':' :: if marked then "[++]".toList else []

@[simp] lemma text_row (r : LineRow) : (LineItem.row r).text = r.text := rfl

@[simp] lemma text_unknown (rest : Text) (h) :
    (LineItem.unknown rest h).text = "UNKNOWN".toList ++ rest := rfl

@[simp] lemma text_empty : LineItem.empty.text = [] := rfl

@[simp] lemma text_path (file : Text) (h h') (marked : Bool) : (LineItem.path file h h' marked).text
    = file ++ ':' :: if marked then "[++]".toList else [] := rfl

/-- The block of a compilation unit. -/
structure CompilationUnit where
  file : Text
  file_line : '\n' ∉ file
  items : List LineItem

/-- `CU: <file>:`. -/
def CompilationUnit.header (u : CompilationUnit) : Text := "CU: ".toList ++ (u.file ++ [':'])

/-- The column headers. -/
def columnHeaders : Text :=
  "File name                            Line number    Starting address".toList

def CompilationUnit.lines (u : CompilationUnit) : List Text :=
  u.header :: columnHeaders :: u.items.map LineItem.text

/-- A line file. -/
structure LineFile where
  preamble : List Text
  preamble_length : preamble.length = 5
  preamble_lines : ∀ line ∈ preamble, '\n' ∉ line
  first : CompilationUnit
  more : List CompilationUnit

def LineFile.text (f : LineFile) : Text :=
  unlines (f.preamble ++ (f.first :: f.more).flatMap CompilationUnit.lines)

/-! ## What a line file says -/

/-- The rows, each with the path named last before it. -/
def locateItems : Text → List LineItem → List Location
  | _, [] => []
  | file, .row r :: items => ⟨file, r.number, r.address⟩ :: locateItems file items
  | _, .path file _ _ _ :: items => locateItems file items
  | file, .unknown _ _ :: items => locateItems file items
  | file, .empty :: items => locateItems file items

def LineFile.locations (f : LineFile) : List Location :=
  unknownLocation :: (f.first :: f.more).flatMap fun u => locateItems u.file u.items

/-- The locations are read as the file says them. -/
def LineFile.Located (f : LineFile) (junk : Location) : Prop :=
  ∃ n, ∀ fuel, n ≤ fuel → parseLineFile fuel junk (some f.text) .empty
    = .ok (true, { Parsed.empty with locations := f.locations })

/-- The rows of a list of items. -/
def rowsOf (items : List LineItem) : List LineRow :=
  items.filterMap fun | .row r => some r | _ => none

def LineFile.rows (f : LineFile) : List LineRow :=
  (f.first :: f.more).flatMap fun u => rowsOf u.items

/-- The short name does not begin like a path or an `UNKNOWN` line. -/
def LineRow.Plain (r : LineRow) : Prop :=
  r.name.head? ≠ some '.' ∧ r.name.head? ≠ some '/' ∧ r.name.take 7 ≠ "UNKNOWN".toList

instance (r : LineRow) : Decidable r.Plain := inferInstanceAs (Decidable (_ ∧ _ ∧ _))

lemma LineRow.isSpace_name (r : LineRow) : ∀ c ∈ r.name, isSpace c = false := by
  intro c hc
  have hall := List.any_eq_false.mp r.name_word c hc
  simpa using hall

/-! ## One line -/

section Line

variable {st : LineState}

lemma rfind_colon (a : Text) {b : Text} (hb : ':' ∉ b) :
    rfind (a ++ ':' :: b) ':' = some a.length := by
  have hnone : b.reverse.findIdx? (· == ':') = none := by
    rw [List.findIdx?_eq_none_iff]
    intro x hx
    simp only [beq_eq_false_iff_ne, ne_eq]
    rintro rfl
    exact hb (List.mem_reverse.mp hx)
  have hrev : (a ++ ':' :: b).reverse = b.reverse ++ ':' :: a.reverse := by simp
  rw [rfind, hrev, List.findIdx?_append, hnone]
  simp only [List.findIdx?_cons, beq_self_eq_true, if_true, Option.none_or, Option.map_some,
    List.length_append, List.length_cons, List.length_reverse, Option.some.injEq]
  omega

lemma substr_header (u : CompilationUnit) :
    substr u.header 4 (positionSub (rfind u.header ':') 4) = .ok u.file := by
  have hfind : rfind u.header ':' = some (4 + u.file.length) := by
    have := rfind_colon ("CU: ".toList ++ u.file) (b := []) (by simp)
    rw [List.append_assoc, List.length_append] at this
    exact this
  have hdrop : u.header.drop 4 = u.file ++ [':'] := rfl
  have hlen : ¬ u.header.length < 4 := by
    simp [CompilationUnit.header]
  rw [substr, if_neg hlen, hfind, hdrop]
  simp [positionSub, takeUpTo]

/-- A line that begins like none of the others is taken for a row. -/
lemma parseLine_other {c : Char} {cs : Text} (hunknown : (c :: cs).take 7 ≠ "UNKNOWN".toList)
    (hc : c ≠ '.' ∧ c ≠ '/') :
    parseLine st (c :: cs) =
      let (_, iss) := (Istream.ofText (c :: cs)).getWord []
      let (number, iss) := iss.getDec st.location.line
      let (address, _) := iss.getHex st.location.address
      { st with
        location := ⟨st.currentfile, number, address⟩
        locations := st.locations ++ [⟨st.currentfile, number, address⟩] } := by
  rw [parseLine, if_neg fun h => hunknown h.2, if_neg (not_or.mpr hc)]

lemma isSpace_blanks (n : ℕ) : ∀ x ∈ ' ' :: blanks n, isSpace x = true := by
  intro x hx
  have hx : x = ' ' := by
    rcases List.mem_cons.mp hx with rfl | hx
    · rfl
    · exact List.eq_of_mem_replicate hx
  rw [hx]
  rfl

/-- Whether a row begins like an `UNKNOWN` line is decided by its short name. -/
lemma take_row (r : LineRow) :
    r.text.take 7 = "UNKNOWN".toList ↔ r.name.take 7 = "UNKNOWN".toList := by
  by_cases hlen : 7 ≤ r.name.length
  · rw [LineRow.text, List.take_append_of_le_length hlen]
  · refine iff_of_false (fun h => ?_) (fun h => ?_)
    · -- the blank behind the name is one of the seven characters
      have hget : (r.text.take 7)[r.name.length]? = some ' ' := by
        rw [List.getElem?_take, if_pos (by omega), LineRow.text,
          List.getElem?_append_right (le_refl _), Nat.sub_self]
        rfl
      rw [h] at hget
      have hmem : ' ' ∈ "UNKNOWN".toList := List.mem_of_getElem? hget
      revert hmem
      decide
    · have hlength := congrArg List.length h
      rw [List.length_take] at hlength
      have : ("UNKNOWN".toList).length = 7 := rfl
      omega

/-- **A row** with a plain name is located in the current file. -/
lemma parseLine_row {r : LineRow} (h : r.Plain) :
    parseLine st r.text = { st with
      location := ⟨st.currentfile, r.number, r.address⟩
      locations := st.locations ++ [⟨st.currentfile, r.number, r.address⟩] } := by
  obtain ⟨hdot, hslash, hunknown⟩ := h
  have htake : r.text.take 7 ≠ "UNKNOWN".toList := fun heq => hunknown ((take_row r).mp heq)
  cases hname : r.name with
  | nil => exact absurd hname r.name_ne
  | cons c cs =>
      have hc : c ≠ '.' ∧ c ≠ '/' := by
        rw [hname] at hdot hslash
        exact ⟨fun heq => hdot (by rw [heq]; rfl), fun heq => hslash (by rw [heq]; rfl)⟩
      have hword := @getWord_spec ' ' (blanks r.gap₁ ++ (showDec r.number.toNat ++
        ' ' :: (blanks r.gap₂ ++ showHex r.address.toNat))) r.name r.name_ne r.isSpace_name rfl []
      have hdec := @getDec_spec (' ' :: blanks r.gap₁) ' '
        (blanks r.gap₂ ++ showHex r.address.toNat)
        (isSpace_blanks _) r.number.toNat r.number.toNat_lt rfl st.location.line
      have hnum := hexNumber_showHex_end (isSpace_blanks r.gap₂) r.address.toNat_lt
      have hhex := getHex_some hnum st.location.address
      rw [UInt32.ofNat_toNat] at hdec
      rw [UInt64.ofNat_toNat] at hhex
      have htext : r.text = c :: (cs ++ ' ' :: (blanks r.gap₁ ++ (showDec r.number.toNat ++
          ' ' :: (blanks r.gap₂ ++ showHex r.address.toNat)))) := by
        rw [LineRow.text, hname]
        rfl
      rw [htext] at htake ⊢
      rw [parseLine_other htake hc, ← List.cons_append, ← hname, hword]
      simp only [List.cons_append] at hdec hhex ⊢
      simp only [hdec, hhex]

lemma parseLine_row_locations {r : LineRow} (h : ¬ r.Plain) :
    (parseLine st r.text).locations = st.locations := by
  cases hname : r.name with
  | nil => exact absurd hname r.name_ne
  | cons c cs =>
      have htext : ∃ cs', r.text = c :: cs' := by
        rw [LineRow.text, hname]
        exact ⟨_, rfl⟩
      obtain ⟨cs', hcs⟩ := htext
      by_cases hunknown : r.name.take 7 = "UNKNOWN".toList
      · have htake := (take_row r).mpr hunknown
        have hlen : 7 ≤ r.text.length := by
          have hlength := congrArg List.length htake
          rw [List.length_take] at hlength
          have : ("UNKNOWN".toList).length = 7 := rfl
          omega
        rw [hcs] at htake hlen ⊢
        rw [parseLine, if_pos ⟨hlen, htake⟩]
      · have hc : c = '.' ∨ c = '/' := by
          by_contra hc
          rw [not_or] at hc
          refine h ⟨?_, ?_, hunknown⟩
          · rw [hname]
            exact fun heq => hc.1 (Option.some.inj heq)
          · rw [hname]
            exact fun heq => hc.2 (Option.some.inj heq)
        have htake : ¬ (7 ≤ (c :: cs').length ∧ (c :: cs').take 7 = "UNKNOWN".toList) := by
          rw [← hcs]
          exact fun heq => hunknown ((take_row r).mp heq.2)
        rw [hcs, parseLine, if_neg htake, if_pos hc]

/-- An empty line changes nothing, -/
lemma parseLine_empty : parseLine st [] = st := rfl

/-- and neither does an `UNKNOWN` line. -/
lemma parseLine_unknown (rest : Text) : parseLine st ("UNKNOWN".toList ++ rest) = st := by
  have hcond : 7 ≤ ("UNKNOWN".toList ++ rest).length ∧
      ("UNKNOWN".toList ++ rest).take 7 = "UNKNOWN".toList := ⟨by simp, rfl⟩
  have htext : "UNKNOWN".toList ++ rest = 'U' :: ("NKNOWN".toList ++ rest) := rfl
  rw [htext] at hcond ⊢
  rw [parseLine, if_pos hcond]

/-- **A path** becomes the current file. -/
lemma parseLine_path {file : Text} (hhead : file.head? = some '.' ∨ file.head? = some '/')
    (marked : Bool) :
    parseLine st (file ++ ':' :: if marked then "[++]".toList else [])
      = { st with currentfile := file } := by
  have hfind : rfind (file ++ ':' :: if marked then "[++]".toList else []) ':'
      = some file.length := by
    cases marked
    · exact rfind_colon file (by simp)
    · exact rfind_colon file (by decide)
  cases file with
  | nil => rcases hhead with h | h <;> cases h
  | cons c cs =>
      have hc : c = '.' ∨ c = '/' := hhead.imp Option.some.inj Option.some.inj
      have hne : (c :: cs ++ ':' :: if marked then "[++]".toList else []).take 7
          ≠ "UNKNOWN".toList := by
        intro heq
        have hU : c = 'U' := (List.cons.inj heq).1
        rcases hc with rfl | rfl <;> cases hU
      rw [List.cons_append] at hfind hne ⊢
      rw [parseLine, if_neg fun h => hne h.2, if_pos hc, hfind]
      simp [takeUpTo]

/-- A `CU:` line is taken for a row, -/
lemma parseLine_header (u : CompilationUnit) : ∃ location : Location, parseLine st u.header =
    { st with location, locations := st.locations ++ [location] } := by
  have hne : u.header.take 7 ≠ "UNKNOWN".toList := by
    intro heq
    have hU : 'C' = 'U' := (List.cons.inj heq).1
    revert hU
    decide
  exact ⟨_, @parseLine_other st 'C' ("U: ".toList ++ (u.file ++ [':'])) hne (by decide)⟩

/-- and so are the column headers, which have no number. -/
lemma parseLine_columnHeaders : parseLine st columnHeaders = { st with
    location := ⟨st.currentfile, 0, st.location.address⟩
    locations := st.locations ++ [⟨st.currentfile, 0, st.location.address⟩] } := rfl

end Line

/-! ## All lines -/

section Fold

variable {st : LineState}

/-- The rows that are taken for rows. -/
def plainRows (items : List LineItem) : List LineRow := (rowsOf items).filter LineRow.Plain

/-- **Items with plain names are located.** -/
lemma foldl_items {items : List LineItem} (h : ∀ r ∈ rowsOf items, r.Plain) :
    ((items.map LineItem.text).foldl parseLine st).locations
      = st.locations ++ locateItems st.currentfile items := by
  induction items generalizing st with
  | nil => simp [locateItems]
  | cons item items ih =>
      rw [List.map_cons, List.foldl_cons]
      cases item with
      | row r =>
          rw [text_row, parseLine_row (h r (by simp [rowsOf])), ih fun r' hr' => h r' (by
            simpa [rowsOf] using Or.inr hr'), locateItems, List.append_assoc]
          rfl
      | path file hfile hhead marked =>
          rw [text_path, parseLine_path hhead, ih h, locateItems]
      | unknown rest hrest =>
          rw [text_unknown, parseLine_unknown, ih h, locateItems]
      | empty =>
          rw [text_empty, parseLine_empty, ih h, locateItems]

/-- Whatever the names, every plain row adds one location, and nothing else does. -/
lemma foldl_items_added (items : List LineItem) : ∃ added,
    ((items.map LineItem.text).foldl parseLine st).locations = st.locations ++ added ∧
      added.length = (plainRows items).length := by
  induction items generalizing st with
  | nil => exact ⟨[], by simp [plainRows, rowsOf]⟩
  | cons item items ih =>
      rw [List.map_cons, List.foldl_cons]
      cases item with
      | row r =>
          obtain ⟨added, heq, hlen⟩ := @ih (parseLine st r.text)
          rw [text_row, heq]
          by_cases hr : r.Plain
          · rw [parseLine_row hr]
            refine ⟨⟨st.currentfile, r.number, r.address⟩ :: added, by simp, ?_⟩
            simp [plainRows, rowsOf, hr] at hlen ⊢
            exact hlen
          · rw [parseLine_row_locations hr]
            refine ⟨added, rfl, ?_⟩
            simp [plainRows, rowsOf, hr] at hlen ⊢
            exact hlen
      | path file hfile hhead marked =>
          rw [text_path, parseLine_path hhead]
          exact @ih { st with currentfile := file }
      | unknown rest hrest =>
          rw [text_unknown, parseLine_unknown]
          exact ih
      | empty =>
          rw [text_empty, parseLine_empty]
          exact ih

/-- A unit that is not the first adds two more, one of them without a line number. -/
lemma foldl_unit_added (u : CompilationUnit) : ∃ added,
    (u.lines.foldl parseLine st).locations = st.locations ++ added ∧
      added.length = 2 + (plainRows u.items).length ∧ ∃ l ∈ added, l.line = 0 := by
  rw [CompilationUnit.lines, List.foldl_cons, List.foldl_cons]
  obtain ⟨location, hheader⟩ := @parseLine_header st u
  rw [hheader, parseLine_columnHeaders]
  obtain ⟨added, heq, hlen⟩ := foldl_items_added u.items
  rw [heq]
  refine ⟨location :: ⟨st.currentfile, 0, location.address⟩ :: added, by simp, ?_, ?_⟩
  · simp only [List.length_cons, hlen]
    omega
  · exact ⟨⟨st.currentfile, 0, location.address⟩, by simp, rfl⟩

lemma foldl_units_added (units : List CompilationUnit) : ∃ added,
    ((units.flatMap CompilationUnit.lines).foldl parseLine st).locations = st.locations ++ added ∧
      added.length = 2 * units.length + (units.flatMap fun u => plainRows u.items).length ∧
      (units ≠ [] → ∃ l ∈ added, l.line = 0) := by
  induction units generalizing st with
  | nil => exact ⟨[], by simp⟩
  | cons u units ih =>
      rw [List.flatMap_cons, List.foldl_append]
      obtain ⟨added, heq, hlen, l, hl, hline⟩ := @foldl_unit_added st u
      obtain ⟨added', heq', hlen', -⟩ := @ih (u.lines.foldl parseLine st)
      rw [heq', heq]
      refine ⟨added ++ added', by simp, ?_, fun _ => ⟨l, by simp [hl], hline⟩⟩
      simp only [List.length_append, List.flatMap_cons, List.length_cons, hlen, hlen']
      omega

end Fold

/-! ## The whole file -/

section File

variable {f : LineFile} {junk : Location}

/-- There is one compilation unit. -/
def LineFile.OneUnit (f : LineFile) : Prop := f.more = []

/-- No short name begins like a path or an `UNKNOWN` line. -/
def LineFile.PlainNames (f : LineFile) : Prop := ∀ r ∈ f.rows, r.Plain

instance (f : LineFile) : Decidable f.PlainNames :=
  inferInstanceAs (Decidable (∀ r ∈ f.rows, r.Plain))

/-- The lines behind the first seven. -/
def LineFile.loopLines (f : LineFile) : List Text :=
  f.first.items.map LineItem.text ++ f.more.flatMap CompilationUnit.lines

/-- Where the loop starts. -/
def LineFile.loopState (f : LineFile) (junk : Location) : LineState :=
  ⟨f.first.file, junk, [unknownLocation]⟩

lemma newline_notMem_blanks (n : ℕ) : '\n' ∉ blanks n := by
  intro h
  have := List.eq_of_mem_replicate h
  revert this
  decide

lemma newline_notMem_item (item : LineItem) : '\n' ∉ item.text := by
  cases item with
  | row r =>
      have hname : '\n' ∉ r.name := by
        intro h
        have := r.isSpace_name '\n' h
        revert this
        decide
      have hdec : '\n' ∉ showDec r.number.toNat := by
        intro h
        have := Nat.isDigit_of_mem_toDigits (by decide) (by decide) h
        revert this
        decide
      have hhex : '\n' ∉ showHex r.address.toNat := by
        intro h
        rcases mem_showHex h with h | h <;> revert h <;> decide
      simp [LineRow.text, hname, hdec, hhex, newline_notMem_blanks]
  | unknown rest hrest =>
      simp only [text_unknown, List.mem_append, not_or]
      exact ⟨by decide, hrest⟩
  | empty => simp
  | path file hfile hhead marked =>
      cases marked <;> simp [hfile]

lemma newline_notMem_unit (u : CompilationUnit) : ∀ line ∈ u.lines, '\n' ∉ line := by
  intro line hline
  rcases List.mem_cons.mp hline with rfl | hline
  · simp only [CompilationUnit.header, List.mem_append, not_or]
    exact ⟨by decide, u.file_line, by simp⟩
  · rcases List.mem_cons.mp hline with rfl | hline
    · decide
    · obtain ⟨item, -, rfl⟩ := List.mem_map.mp hline
      exact newline_notMem_item item

/-- **What is read from a line file**: the loop starts in the file of the first unit. -/
lemma parseLineFile_text {fuel : ℕ} (hn : f.loopLines.length < fuel) :
    parseLineFile fuel junk (some f.text) .empty = .ok (true, { Parsed.empty with
      locations := (f.loopLines.foldl parseLine (f.loopState junk)).locations }) := by
  have hunits : ∀ line ∈ (f.first :: f.more).flatMap CompilationUnit.lines, '\n' ∉ line := by
    intro line hline
    obtain ⟨u, -, hline⟩ := List.mem_flatMap.mp hline
    exact newline_notMem_unit u line hline
  obtain ⟨l₁, l₂, l₃, l₄, l₅, hpre⟩ : ∃ l₁ l₂ l₃ l₄ l₅, f.preamble = [l₁, l₂, l₃, l₄, l₅] := by
    have hlength := f.preamble_length
    match f.preamble, hlength with
    | [l₁, l₂, l₃, l₄, l₅], _ => exact ⟨l₁, l₂, l₃, l₄, l₅, rfl⟩
  have hall : ∀ line ∈ f.preamble ++ (f.first :: f.more).flatMap CompilationUnit.lines,
      '\n' ∉ line := by
    intro line hline
    rcases List.mem_append.mp hline with hline | hline
    · exact f.preamble_lines line hline
    · exact hunits line hline
  have hlines : f.preamble ++ (f.first :: f.more).flatMap CompilationUnit.lines
      = l₁ :: l₂ :: l₃ :: l₄ :: l₅ :: f.first.header :: columnHeaders :: f.loopLines := by
    rw [hpre, List.flatMap_cons, CompilationUnit.lines, LineFile.loopLines]
    rfl
  rw [hlines] at hall
  have hparse := @parseLineFile_lines [] (by simp) fuel junk .empty l₁ l₂ l₃ l₄ l₅ f.first.header
    columnHeaders f.loopLines hall hn
  rw [List.append_nil, substr_header] at hparse
  rw [LineFile.text, hlines, hparse]
  rfl

lemma located_iff : f.Located junk ↔
    (f.loopLines.foldl parseLine (f.loopState junk)).locations = f.locations := by
  constructor
  · rintro ⟨n, h⟩
    have hread := h (max n (f.loopLines.length + 1)) (le_max_left _ _)
    rw [parseLineFile_text (Nat.lt_of_succ_le (le_max_right _ _))] at hread
    exact congrArg (fun r => r.2.locations) (Except.ok.inj hread)
  · intro h
    refine ⟨f.loopLines.length + 1, fun fuel hfuel => ?_⟩
    rw [parseLineFile_text hfuel, h]

lemma mem_locateItems {file : Text} {items : List LineItem} {l : Location}
    (h : l ∈ locateItems file items) : ∃ r ∈ rowsOf items, r.number = l.line := by
  induction items generalizing file with
  | nil => cases h
  | cons item items ih =>
      cases item with
      | row r =>
          rcases List.mem_cons.mp h with rfl | h
          · exact ⟨r, by simp [rowsOf], rfl⟩
          · obtain ⟨r', hr', hline⟩ := ih h
            exact ⟨r', by simpa [rowsOf] using Or.inr hr', hline⟩
      | path file' hfile hhead marked => exact ih h
      | unknown rest hrest => exact ih h
      | empty => exact ih h

lemma length_locateItems (file : Text) (items : List LineItem) :
    (locateItems file items).length = (rowsOf items).length := by
  induction items generalizing file with
  | nil => rfl
  | cons item items ih =>
      cases item with
      | row r => simpa [locateItems, rowsOf] using ih file
      | path file' hfile hhead marked => exact ih file'
      | unknown rest hrest => exact ih file
      | empty => exact ih file

lemma length_locations : f.locations.length = 1 + f.rows.length := by
  simp only [LineFile.locations, LineFile.rows, List.length_cons, List.length_flatMap,
    length_locateItems]
  omega

lemma loop_added : ∃ added,
    (f.loopLines.foldl parseLine (f.loopState junk)).locations = unknownLocation :: added ∧
      added.length = 2 * f.more.length + (f.rows.filter LineRow.Plain).length ∧
      (f.more ≠ [] → ∃ l ∈ added, l.line = 0) := by
  obtain ⟨added, heq, hlen⟩ := @foldl_items_added (f.loopState junk) f.first.items
  obtain ⟨added', heq', hlen', hline⟩ := @foldl_units_added
    ((f.first.items.map LineItem.text).foldl parseLine (f.loopState junk)) f.more
  rw [LineFile.loopLines, List.foldl_append, heq', heq]
  refine ⟨added ++ added', by simp [LineFile.loopState], ?_, fun hne => ?_⟩
  · simp only [LineFile.rows, List.flatMap_cons, List.filter_append, List.length_append,
      List.filter_flatMap, hlen, hlen', plainRows]
    omega
  · obtain ⟨l, hl, h0⟩ := hline hne
    exact ⟨l, by simp [hl], h0⟩

/-- **When a line file is located.**  One unit and plain names are enough.  A file that is located
otherwise has several units, and a name that is not plain, and a row with the line number zero: the
rows that are missing happen to say what the headers were taken for. -/
theorem parseLineFile_located (f : LineFile) (junk : Location) :
    (f.OneUnit ∧ f.PlainNames → f.Located junk) ∧
    (f.Located junk → (f.OneUnit ∧ f.PlainNames) ∨
      (¬ f.OneUnit ∧ ¬ f.PlainNames ∧ ∃ r ∈ f.rows, r.number = 0)) := by
  rw [located_iff]
  constructor
  · rintro ⟨hone, hplain⟩
    have hrows : ∀ r ∈ rowsOf f.first.items, r.Plain :=
      fun r hr => hplain r (by simp [LineFile.rows, hr])
    rw [LineFile.OneUnit] at hone
    rw [LineFile.loopLines, hone, List.flatMap_nil, List.append_nil, foldl_items hrows,
      LineFile.locations, hone]
    simp [LineFile.loopState]
  · intro hloc
    obtain ⟨added, heq, hlen, hline⟩ := @loop_added f junk
    rw [heq] at hloc
    have hcount : added.length = f.rows.length := by
      have := congrArg List.length hloc
      rw [length_locations, List.length_cons] at this
      omega
    have hplain : f.PlainNames ↔ (f.rows.filter LineRow.Plain).length = f.rows.length := by
      rw [List.length_filter_eq_length_iff]
      simp [LineFile.PlainNames]
    by_cases hone : f.OneUnit
    · left
      refine ⟨hone, hplain.mpr ?_⟩
      rw [LineFile.OneUnit] at hone
      rw [hone, List.length_nil] at hlen
      omega
    · right
      refine ⟨hone, fun h => ?_, ?_⟩
      · have hpos : 0 < f.more.length := List.length_pos_iff.mpr hone
        have := hplain.mp h
        omega
      · obtain ⟨l, hl, h0⟩ := hline hone
        have hsaid : l ∈ (f.first :: f.more).flatMap fun u => locateItems u.file u.items := by
          rw [LineFile.locations] at hloc
          rw [← (List.cons.inj hloc).2]
          exact hl
        obtain ⟨u, hu, hl⟩ := List.mem_flatMap.mp hsaid
        obtain ⟨r, hr, hnum⟩ := mem_locateItems hl
        exact ⟨r, List.mem_flatMap.mpr ⟨u, hu, hr⟩, hnum.trans h0⟩

end File

/-! ## Two files -/

/-- The lines before the first unit. -/
def samplePreamble : List Text :=
  [[], "./a.o:     file format elf64-x86-64".toList, [],
    "Decoded dump of debug contents of section .debug_line:".toList, []]

/-- A header that is included, and the file that includes it. -/
def oneUnit : LineFile where
  preamble := samplePreamble
  preamble_length := rfl
  preamble_lines := by decide
  first := ⟨"a.h".toList, by decide,
    [.row ⟨"a.h".toList, by decide, by decide, 3, 0x400100, 20, 8⟩, .empty,
      .path "./a.c".toList (by decide) (by decide) true,
      .row ⟨"a.c".toList, by decide, by decide, 7, 0x400110, 20, 8⟩,
      .unknown ": length 2".toList (by decide)]⟩
  more := []

/-- A program of two files. -/
def twoUnits : LineFile where
  preamble := samplePreamble
  preamble_length := rfl
  preamble_lines := by decide
  first := ⟨"a.c".toList, by decide,
    [.row ⟨"a.c".toList, by decide, by decide, 3, 0x400100, 20, 8⟩, .empty]⟩
  more := [⟨"b.c".toList, by decide,
    [.row ⟨"b.c".toList, by decide, by decide, 7, 0x400200, 20, 8⟩, .empty]⟩]

theorem oneUnit_located : oneUnit.Located ⟨[], 0, 0⟩ :=
  (parseLineFile_located oneUnit ⟨[], 0, 0⟩).1 ⟨rfl, by decide⟩

/-- The header of the second unit becomes two locations, and its row is located in the first
file. -/
theorem twoUnits_not_located : ¬ twoUnits.Located ⟨[], 0, 0⟩ := by
  rw [located_iff]
  decide

end PerVERT
