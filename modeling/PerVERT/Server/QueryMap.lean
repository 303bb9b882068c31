import PerVERT.Server.Query
import Mathlib.Data.List.Induction

/-!
# What the query data says

`Server/Query.lean` reads a short query string piece by piece.  Here the pieces become a map: a key
is what stands before the first `=` of some piece, and the last piece with the key gives its value.

* `keyOf`, `valueOf` — the two sides of a piece; `joinPairs` — the way back.
* `QueryData.Tells qd pairs` — the data is the map of the pairs, later duplicates winning.
* `parseEntries_eq` — the loop over the entries: all of them have a `=`, or nothing is published.
* **`parseQuery_tells`** — when query data is published, what it tells, and that pairs joined to a
  query string are read back.
-/

namespace PerVERT

/-! ## Pairs -/

/-- The text before the first `=`. -/
def keyOf (piece : Text) : Text := piece.takeWhile (· ≠ '=')

/-- The text after it. -/
def valueOf (piece : Text) : Text := (piece.dropWhile (· ≠ '=')).tail

/-- The value of the last pair with the key. -/
def lastValue (pairs : List (Text × Text)) (k : Text) : Option Text :=
  (pairs.reverse.find? fun kv => kv.1 = k).map Prod.snd

/-- The query data is the map of the pairs. -/
structure QueryData.Tells (qd : QueryData) (pairs : List (Text × Text)) : Prop where
  exists_iff : ∀ k, qd.exists_ k = true ↔ ∃ kv ∈ pairs, kv.1 = k
  get_eq : ∀ k, qd.get k = (lastValue pairs k).getD []

/-- A query string of these pairs. -/
def joinPairs (pairs : List (Text × Text)) : Text :=
  ['&'].intercalate (pairs.map fun kv => kv.1 ++ '=' :: kv.2)

/-- The pair can be written into a query string. -/
def PlainPair (kv : Text × Text) : Prop := '&' ∉ kv.1 ∧ '=' ∉ kv.1 ∧ '&' ∉ kv.2

instance (kv : Text × Text) : Decidable (PlainPair kv) :=
  inferInstanceAs (Decidable (_ ∧ _ ∧ _))

section Pairs

variable {pairs : List (Text × Text)} {k : Text}

lemma lastValue_append (kv : Text × Text) :
    lastValue (pairs ++ [kv]) k = if kv.1 = k then some kv.2 else lastValue pairs k := by
  rw [lastValue, List.reverse_append, List.reverse_singleton, List.singleton_append,
    List.find?_cons]
  by_cases hk : kv.1 = k
  · simp [hk]
  · simp [hk, lastValue]

lemma lastValue_isSome : (lastValue pairs k).isSome = true ↔ ∃ kv ∈ pairs, kv.1 = k := by
  simp [lastValue]

/-- Entering the pairs one after the other. -/
lemma getElem?_foldl_insert : (pairs.foldl (fun (data : Std.TreeMap Text Text) kv =>
    data.insert kv.1 kv.2) {})[k]? = lastValue pairs k := by
  induction pairs using List.reverseRecOn with
  | nil => simp [lastValue]
  | append_singleton pairs kv ih =>
      rw [List.foldl_append, List.foldl_cons, List.foldl_nil, Std.TreeMap.getElem?_insert, ih,
        lastValue_append]
      simp only [Std.LawfulEqOrd.compare_eq_iff_eq]

/-- **The map of the pairs** tells them. -/
lemma tells_foldl_insert : QueryData.Tells
    ⟨pairs.foldl (fun data kv => data.insert kv.1 kv.2) {}⟩ pairs := by
  have hexists : ∀ k, QueryData.exists_
      ⟨pairs.foldl (fun data kv => data.insert kv.1 kv.2) {}⟩ k = (lastValue pairs k).isSome := by
    intro k
    rw [QueryData.exists_, Std.TreeMap.contains_eq_isSome_getElem?, getElem?_foldl_insert]
  refine ⟨fun k => by rw [hexists, lastValue_isSome], fun k => ?_⟩
  rw [QueryData.get, hexists, Std.TreeMap.getD_eq_getD_getElem?, getElem?_foldl_insert]
  cases lastValue pairs k <;> rfl

end Pairs

/-! ## Pieces -/

lemma cutEntry_eq (piece : Text) :
    cutEntry piece = if '=' ∈ piece then some (keyOf piece, valueOf piece) else none := rfl

/-- A pair is cut where it was joined. -/
lemma cut_pair {key value : Text} (h : '=' ∉ key) :
    keyOf (key ++ '=' :: value) = key ∧ valueOf (key ++ '=' :: value) = value := by
  have hstop : ∀ x ∈ key, decide (x ≠ '=') = true := by
    intro x hx
    exact decide_eq_true fun hxe => h (hxe ▸ hx)
  constructor
  · rw [keyOf, List.takeWhile_append_of_pos hstop]
    simp
  · rw [valueOf, List.dropWhile_append_of_pos hstop]
    simp

/-- **The loop over the entries.** -/
lemma parseEntries_eq : ∀ {entries : List Text} {qd : QueryData},
    (∀ entry ∈ entries, entry.length < 2 ^ 31) → parseEntries entries qd = .ok
      (if ∀ entry ∈ entries, '=' ∈ entry then
        some ⟨(entries.map fun entry => (keyOf entry, valueOf entry)).foldl
          (fun data kv => data.insert kv.1 kv.2) qd.data⟩
      else none)
  | [], qd, _ => by simp [parseEntries]; rfl
  | entry :: rest, qd, h => by
      have hrest : ∀ x ∈ rest, x.length < 2 ^ 31 := fun x hx => h x (List.mem_cons_of_mem _ hx)
      rw [parseEntries, parseEntry_eq (h entry List.mem_cons_self), checked_ok_bind, cutEntry_eq]
      by_cases heq : '=' ∈ entry
      · rw [if_pos heq]
        show parseEntries rest ⟨qd.data.insert (keyOf entry) (valueOf entry)⟩ = _
        rw [parseEntries_eq hrest]
        simp only [List.forall_mem_cons, heq, true_and]
        rfl
      · rw [if_neg heq, if_neg fun hall => heq (hall entry List.mem_cons_self)]
        rfl

/-- Joined pairs come apart into their pieces. -/
lemma queryPieces_joinPairs {pairs : List (Text × Text)} (hne : pairs ≠ [])
    (hplain : ∀ kv ∈ pairs, PlainPair kv) :
    queryPieces (joinPairs pairs) = pairs.map fun kv => kv.1 ++ '=' :: kv.2 := by
  have hsplit : (joinPairs pairs).splitOn '&' = pairs.map fun kv => kv.1 ++ '=' :: kv.2 := by
    refine List.splitOn_intercalate '&' (fun piece hpiece => ?_) (by simpa using hne)
    obtain ⟨kv, hkv, rfl⟩ := List.mem_map.mp hpiece
    obtain ⟨hkey, -, hvalue⟩ := hplain kv hkv
    simp [hkey, hvalue]
  rw [queryPieces, hsplit, if_neg]
  rintro ⟨-, hlast⟩
  obtain ⟨kv, -, hempty⟩ := List.mem_map.mp (List.mem_of_getLast? hlast)
  simp at hempty

/-! ## The query string -/

/-- Joined pairs are read back. -/
lemma parseQuery_joinPairs {pairs : List (Text × Text)} {fuel : ℕ} (hne : pairs ≠ [])
    (hplain : ∀ kv ∈ pairs, PlainPair kv) (h : (joinPairs pairs).length < 2 ^ 31)
    (hfuel : (joinPairs pairs).length < fuel) :
    ∃ qd, parseQuery fuel (joinPairs pairs) = .ok (some qd) ∧ qd.Tells pairs := by
  have hpieces := queryPieces_joinPairs hne hplain
  have hshort : ∀ piece ∈ queryPieces (joinPairs pairs), piece.length < 2 ^ 31 :=
    fun piece hpiece => lt_of_le_of_lt (length_of_mem_queryPieces hpiece) h
  have hback : (queryPieces (joinPairs pairs)).map (fun piece => (keyOf piece, valueOf piece))
      = pairs := by
    rw [hpieces, List.map_map]
    refine (List.map_congr_left fun kv hkv => ?_).trans (List.map_id pairs)
    obtain ⟨hkey, hvalue⟩ := @cut_pair kv.1 kv.2 (hplain kv hkv).2.1
    rw [Function.comp_apply, hkey, hvalue]
    rfl
  rw [parseQuery, queryEntries_eq h hfuel, checked_ok_bind, parseEntries_eq hshort, if_pos, hback]
  · exact ⟨_, rfl, tells_foldl_insert⟩
  · intro piece hpiece
    rw [hpieces] at hpiece
    obtain ⟨kv, -, rfl⟩ := List.mem_map.mp hpiece
    simp

/-- **What a short query string is read to.**  It is accepted just if every piece between `&`s has
an `=`; the first one in a piece ends its key, and of several pieces with one key the last one
counts.  So pairs of plain texts that are joined to a query string are read back as they were. -/
theorem parseQuery_tells {q : Text} {fuel : ℕ} (h : q.length < 2 ^ 31) (hfuel : q.length < fuel) :
    ∃ r, parseQuery fuel q = .ok r ∧
      (r.isSome = true ↔ ∀ piece ∈ queryPieces q, '=' ∈ piece) ∧
      (∀ qd, r = some qd →
        qd.Tells ((queryPieces q).map fun piece => (keyOf piece, valueOf piece))) ∧
      ∀ pairs, pairs ≠ [] → (∀ kv ∈ pairs, PlainPair kv) → q = joinPairs pairs →
        ∃ qd, r = some qd ∧ qd.Tells pairs := by
  have hshort : ∀ piece ∈ queryPieces q, piece.length < 2 ^ 31 := fun piece hpiece =>
    lt_of_le_of_lt (length_of_mem_queryPieces hpiece) h
  have hparse : parseQuery fuel q = parseEntries (queryPieces q) QueryData.empty := by
    rw [parseQuery, queryEntries_eq h hfuel, checked_ok_bind]
  refine ⟨_, hparse.trans (parseEntries_eq hshort), ?_, ?_, ?_⟩
  · split_ifs with hall
    · exact iff_of_true rfl hall
    · exact iff_of_false (by simp) hall
  · intro qd hqd
    split_ifs at hqd
    cases hqd
    exact tells_foldl_insert
  · rintro pairs hne hplain rfl
    have hpieces := queryPieces_joinPairs hne hplain
    have hall : ∀ piece ∈ queryPieces (joinPairs pairs), '=' ∈ piece := by
      intro piece hpiece
      rw [hpieces] at hpiece
      obtain ⟨kv, -, rfl⟩ := List.mem_map.mp hpiece
      simp
    have hback : (queryPieces (joinPairs pairs)).map (fun piece => (keyOf piece, valueOf piece))
        = pairs := by
      rw [hpieces, List.map_map]
      refine (List.map_congr_left fun kv hkv => ?_).trans (List.map_id pairs)
      obtain ⟨hkey, hvalue⟩ := @cut_pair kv.1 kv.2 (hplain kv hkv).2.1
      rw [Function.comp_apply, hkey, hvalue]
      rfl
    rw [if_pos hall, hback]
    exact ⟨_, rfl, tells_foldl_insert⟩

/-- A repeated key, an empty value, a `=` inside a value, and an empty key. -/
theorem repeatedKey_tells : ∃ r, parseQuery 100 "a=1&b=&a=2=3&=4".toList = .ok r ∧
    (r.isSome = true ↔ ∀ piece ∈ queryPieces "a=1&b=&a=2=3&=4".toList, '=' ∈ piece) ∧
    (∀ qd, r = some qd → qd.Tells ((queryPieces "a=1&b=&a=2=3&=4".toList).map fun piece =>
      (keyOf piece, valueOf piece))) ∧
    ∀ pairs, pairs ≠ [] → (∀ kv ∈ pairs, PlainPair kv) →
      "a=1&b=&a=2=3&=4".toList = joinPairs pairs → ∃ qd, r = some qd ∧ qd.Tells pairs :=
  parseQuery_tells (by decide) (by decide)

end PerVERT
