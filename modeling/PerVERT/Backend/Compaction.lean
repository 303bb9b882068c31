import PerVERT.Backend.Index

/-!
# How compact a loaded trace is

`remapAddresses` is there to make the address space small enough to look at.  It cannot be made
smaller, unless offsets, lines or their order are given up; and it has to be done once only.

* `LeastLayout` — what the address map is among all layouts by lines;
  **`load_leastLayout`**.
* `renames_live` — the map of live blocks, when every address is renamed in its order;
  `indexOf_map` — nothing in the index changes.
* **`load_again`** — a loaded trace is loaded to itself: index, snapshots, addresses and all.
-/

namespace PerVERT

/-! ## The least layout -/

/-- The address map is the least of the layouts by lines, and uses every line up to the last. -/
structure LeastLayout (cacheLine : UInt64) (mallocs : List (UInt64 × UInt64)) (m : AddressMap) :
    Prop where
  layout : ∃ g, LineLayoutOf cacheLine.toNat (InUse mallocs) g ∧
    ∀ a, Covered mallocs a → ∃ a', remapAddress a m.regions m.offsets = .ok a' ∧
      a'.toNat = g a.toNat
  least : ∀ g, LineLayoutOf cacheLine.toNat (InUse mallocs) g →
    ∀ a a', remapAddress a m.regions m.offsets = .ok a' → a'.toNat ≤ g a.toNat
  full : ∀ line, line ≤ m.maxAddress / cacheLine → ∃ a a', Covered mallocs a ∧
    remapAddress a m.regions m.offsets = .ok a' ∧ a' / cacheLine = line

section Least

variable {cacheLine : UInt64} {mallocs : List (UInt64 × UInt64)} {m : AddressMap}

lemma cacheLine_pos (h : cacheLine ≠ 0) : 0 < cacheLine.toNat :=
  Nat.pos_of_ne_zero fun hzero => h (UInt64.toNat_inj.mp hzero)

/-- Some MALLOC ends last. -/
lemma exists_last_end (hne : mallocs ≠ []) : ∃ p ∈ mallocs, ∀ q ∈ mallocs, q.2 ≤ p.2 := by
  obtain ⟨p, hp⟩ := List.exists_mem_of_ne_nil mallocs hne
  exact Set.exists_max_image { p | p ∈ mallocs } Prod.snd (List.finite_toSet mallocs) ⟨p, hp⟩

/-- A line below one in use is the line of an allocated address. -/
lemma exists_covered_of_lt {a : UInt64} {k : ℕ}
    (h : k < lineRank cacheLine.toNat (InUse mallocs) a.toNat) :
    ∃ b, Covered mallocs b ∧ lineRank cacheLine.toNat (InUse mallocs) b.toNat = k := by
  obtain ⟨b, hb, -, hrank⟩ := exists_of_lt_lineRank h
  obtain ⟨p, -, -, hle⟩ := inUse_iff.mp hb
  have hb64 : (UInt64.ofNat b).toNat = b :=
    UInt64.toNat_ofNat_of_lt' (lt_of_le_of_lt hle p.2.toNat_lt)
  rw [← hb64] at hb hrank
  exact ⟨UInt64.ofNat b, inUse_toNat.mp hb, hrank⟩

lemma leastLayout_of_addressMap (h0 : 0 < cacheLine.toNat) (hL : cacheLine.toNat ≤ 2 ^ 63)
    (hne : mallocs ≠ []) (hwf : WellFormed mallocs) (hm : addressMap cacheLine mallocs = .ok m) :
    LeastLayout cacheLine mallocs m := by
  constructor
  · exact ⟨_, layout_compress h0, fun a ha => addressMap_spec h0 hL hwf hm ha⟩
  · intro g hg a a' ha
    obtain ⟨hin, hplace⟩ := place_of_remapAddress h0 hL hwf hm ha
    rw [hplace]
    exact compress_le_of_layout hg hin
  · intro line hline
    obtain ⟨p, hp, hlast⟩ := exists_last_end hne
    have hcovered : Covered mallocs p.2 := ⟨p, hp, hwf p hp, le_refl _⟩
    have hrank : m.maxAddress.toNat / cacheLine.toNat
        = lineRank cacheLine.toNat (InUse mallocs) p.2.toNat := by
      rw [addressMap_maxAddress h0 hL hwf hm hp hlast, mappedAddress, compress_div h0]
    obtain ⟨b, hb, hbline⟩ : ∃ b, Covered mallocs b ∧
        lineRank cacheLine.toNat (InUse mallocs) b.toNat = line.toNat := by
      rw [UInt64.le_iff_toNat_le, UInt64.toNat_div, hrank] at hline
      rcases Nat.lt_or_eq_of_le hline with hlt | heq
      · exact exists_covered_of_lt hlt
      · exact ⟨p.2, hcovered, heq.symm⟩
    obtain ⟨b', hb', hplace⟩ := addressMap_spec h0 hL hwf hm hb
    refine ⟨b, b', hb, hb', UInt64.toNat_inj.mp ?_⟩
    rw [UInt64.toNat_div, hplace, mappedAddress, compress_div h0, hbline]

/-- **A loaded trace is as compact as it can be.**  Of all maps of the allocated addresses that keep
each offset on its line, and lines apart and in their order, the one that the trace was moved with
puts every address lowest; and up to the maximum there is no line without an allocated address on
it.  Each block has to end where it begins, or behind that. -/
theorem load_leastLayout {p : Parsed} {t : Trace} (h : Trace.load p cacheLine = .ok t)
    (hL : cacheLine.toNat ≤ 2 ^ 63) (hwf : WellFormed (mallocsOf p.events)) :
    ∃ m, addressMap cacheLine (mallocsOf p.events) = .ok m ∧ t.maxAddress = m.maxAddress ∧
      List.Forall₂ (fun e e' => remapEvent m e = .ok e') p.events t.events ∧
      LeastLayout cacheLine (mallocsOf p.events) m := by
  obtain ⟨-, m, hm, mapped, hmapped, rfl⟩ := load_eq_ok.mp h
  obtain ⟨hcacheLine, hne, -⟩ := addressMap_returns_iff.mp ⟨m, hm⟩
  exact ⟨m, hm, rfl, hmapped,
    leastLayout_of_addressMap (cacheLine_pos hcacheLine) hL hne hwf hm⟩

lemma twoBlocks_load : ∃ t, Trace.load twoBlocks.toParsed 1024 = .ok t :=
  load_returns_iff.mpr
    ⟨by decide, by decide, by decide, countersFit_of_length (by decide), by decide⟩

/-- Two blocks on two lines: no layout puts the second one lower. -/
theorem twoBlocks_leastLayout : ∃ t m, Trace.load twoBlocks.toParsed 1024 = .ok t ∧
    addressMap 1024 (mallocsOf twoBlocks.events) = .ok m ∧ t.maxAddress = m.maxAddress ∧
    List.Forall₂ (fun e e' => remapEvent m e = .ok e') twoBlocks.events t.events ∧
    LeastLayout 1024 (mallocsOf twoBlocks.events) m := by
  obtain ⟨t, ht⟩ := twoBlocks_load
  obtain ⟨m, hrest⟩ := load_leastLayout ht (by decide) (by decide)
  exact ⟨t, m, ht, hrest⟩

end Least

/-! ## The index of renamed addresses -/

/-- The events are moved: they keep their types and contexts, and what they point to is renamed. -/
structure Moves (P : UInt64 → Prop) (g : UInt64 → UInt64) (f : Event → Event)
    (events : List Event) : Prop where
  known : ∀ e ∈ events, P e.arg1
  type : ∀ e ∈ events, (f e).type = e.type
  context : ∀ e ∈ events, (f e).context = e.context
  address : ∀ e ∈ events, (f e).arg1 = g e.arg1

section Moves

variable {P : UInt64 → Prop} {g : UInt64 → UInt64} {f : Event → Event} {events : List Event}

lemma Moves.of_append {e : Event} (h : Moves P g f (events ++ [e])) : Moves P g f events := by
  constructor
  · exact fun e he => h.known e (List.mem_append_left _ he)
  · exact fun e he => h.type e (List.mem_append_left _ he)
  · exact fun e he => h.context e (List.mem_append_left _ he)
  · exact fun e he => h.address e (List.mem_append_left _ he)

lemma Moves.take (h : Moves P g f events) (n : ℕ) : Moves P g f (events.take n) := by
  constructor
  · exact fun e he => h.known e (List.mem_of_mem_take he)
  · exact fun e he => h.type e (List.mem_of_mem_take he)
  · exact fun e he => h.context e (List.mem_of_mem_take he)
  · exact fun e he => h.address e (List.mem_of_mem_take he)

/-- **The live blocks** are those under the new addresses. -/
lemma renames_live (hg : ∀ a b, P a → P b → g a = g b → a = b) :
    ∀ {events : List Event}, Moves P g f events →
      Renames P g (live events) (live (events.map f)) := by
  intro events
  induction events using List.reverseRecOn with
  | nil => exact fun _ => renames_empty
  | append_singleton events e ih =>
      intro h
      have hlast : e ∈ events ++ [e] := by simp
      have hrec := ih h.of_append
      have hknown := h.known e hlast
      rw [List.map_append, List.map_singleton, live_append, live_append, liveStep, liveStep,
        h.type e hlast, h.address e hlast, List.length_map]
      cases e.type with
      | MALLOC => exact hrec.insert hg hknown _
      | FREE => exact hrec.erase hg hknown
      | READ | WRITE | END => exact hrec

/-- **No assertion** fires that did not before. -/
lemma accepted_map (hg : ∀ a b, P a → P b → g a = g b → a = b) :
    ∀ {events : List Event}, Moves P g f events → Accepted events → Accepted (events.map f) := by
  intro events
  induction events using List.reverseRecOn with
  | nil => exact fun _ h => h
  | append_singleton events e ih =>
      intro h haccepted
      obtain ⟨hbefore, hend, hfresh⟩ := accepted_append.mp haccepted
      have hlast : e ∈ events ++ [e] := by simp
      rw [List.map_append, List.map_singleton, accepted_append]
      refine ⟨ih h.of_append hbefore, ?_, fun hmalloc => ?_⟩
      · rw [h.type e hlast]
        exact hend
      · rw [h.type e hlast] at hmalloc
        rw [h.address e hlast, (renames_live hg h.of_append).mem_iff (h.known e hlast)]
        exact hfresh hmalloc

/-- **The index** does not change: blocks that are renamed in their order stay in it. -/
lemma indexOf_map (hg : ∀ a b, P a → P b → a < b → g a < g b)
    (hinj : ∀ a b, P a → P b → g a = g b → a = b) (h : Moves P g f events) :
    (indexOf (events.map f)).byType = (indexOf events).byType ∧
      (indexOf (events.map f)).byContext = (indexOf events).byContext ∧
      (indexOf (events.map f)).validRegions = (indexOf events).validRegions := by
  refine ⟨funext fun T => ?_, funext fun c => ?_, ?_⟩
  · simp only [indexOf, positions_map]
    exact positions_congr fun e he => by rw [h.type e he]
  · simp only [indexOf, positions_map]
    exact positions_congr fun e he => by rw [h.context e he]
  · simp only [indexOf, snapshots, List.length_map]
    refine List.map_congr_left fun k _ => ?_
    rw [← List.map_take, (renames_live hinj (h.take (k + 1))).toList hg, List.map_map]
    rfl

end Moves

/-! ## Loading again -/

/-- Where the map puts an address. -/
def placeOf (m : AddressMap) (a : UInt64) : UInt64 :=
  (remapAddress a m.regions m.offsets).toOption.getD a

/-- What the map makes of an event. -/
def moveEvent (m : AddressMap) (e : Event) : Event := (remapEvent m e).toOption.getD e

/-- The blocks, from where the map puts their begins to where it puts their ends. -/
def movedBlocks (m : AddressMap) (mallocs : List (UInt64 × UInt64)) : List (UInt64 × UInt64) :=
  mallocs.map fun p => (placeOf m p.1, placeOf m p.2)

section Again

variable {cacheLine : UInt64} {mallocs : List (UInt64 × UInt64)} {m : AddressMap}
  {events mapped : List Event}

lemma placeOf_of_ok {a a' : UInt64} (h : remapAddress a m.regions m.offsets = .ok a') :
    placeOf m a = a' := by
  rw [placeOf, h]
  rfl

lemma placeOf_toNat (h0 : 0 < cacheLine.toNat) (hL : cacheLine.toNat ≤ 2 ^ 63)
    (hwf : WellFormed mallocs) (hm : addressMap cacheLine mallocs = .ok m) {a : UInt64}
    (ha : Covered mallocs a) :
    (placeOf m a).toNat = compress cacheLine.toNat (InUse mallocs) a.toNat := by
  obtain ⟨a', ha', hplace⟩ := addressMap_spec h0 hL hwf hm ha
  rw [placeOf_of_ok ha', hplace, mappedAddress]

lemma mapped_eq_map (h : List.Forall₂ (fun e e' => remapEvent m e = .ok e') events mapped) :
    mapped = events.map (moveEvent m) := by
  induction h with
  | nil => rfl
  | cons he _ ih =>
      rw [List.map_cons, ← ih, moveEvent, he]
      rfl

/-- The events that the map moves, and where. -/
lemma moves_of_mapped (h0 : 0 < cacheLine.toNat) (hL : cacheLine.toNat ≤ 2 ^ 63)
    (hwf : WellFormed mallocs) (hm : addressMap cacheLine mallocs = .ok m)
    (h : ∀ e ∈ events, ∃ e', remapEvent m e = .ok e') :
    Moves (Covered mallocs) (placeOf m) (moveEvent m) events := by
  have hmove : ∀ e ∈ events, remapEvent m e = .ok (moveEvent m e) := by
    intro e he
    obtain ⟨e', he'⟩ := h e he
    rw [moveEvent, he']
    rfl
  constructor
  · intro e he
    have haddress := (remapEvent_fields (hmove e he)).2.2.2.1
    exact inUse_toNat.mp (place_of_remapAddress h0 hL hwf hm haddress).1
  · exact fun e he => (remapEvent_fields (hmove e he)).2.1
  · exact fun e he => (remapEvent_fields (hmove e he)).2.2.1
  · exact fun e he => (placeOf_of_ok (remapEvent_fields (hmove e he)).2.2.2.1).symm

/-- The MALLOCs of the moved events. -/
lemma mallocsOf_map (h : ∀ e ∈ events, ∃ e', remapEvent m e = .ok e') :
    mallocsOf (events.map (moveEvent m))
      = movedBlocks m (mallocsOf events) := by
  induction events with
  | nil => rfl
  | cons e events ih =>
      obtain ⟨e', he'⟩ := h e List.mem_cons_self
      obtain ⟨-, htype, -, harg1, harg2⟩ := remapEvent_fields he'
      have hmove : moveEvent m e = e' := by
        rw [moveEvent, he']
        rfl
      have hrest := ih fun e he => h e (List.mem_cons_of_mem _ he)
      simp only [mallocsOf, movedBlocks] at hrest
      simp only [mallocsOf, movedBlocks, List.map_cons, hmove, List.filter_cons, htype]
      by_cases hmalloc : e.type = .MALLOC
      · simp only [hmalloc, decide_true, if_true, List.map_cons, hrest,
          placeOf_of_ok harg1, placeOf_of_ok (harg2 hmalloc)]
      · simp only [hmalloc, decide_false, Bool.false_eq_true, if_false, hrest]

section Places

variable (h0 : 0 < cacheLine.toNat) (hL : cacheLine.toNat ≤ 2 ^ 63) (hwf : WellFormed mallocs)
  (hm : addressMap cacheLine mallocs = .ok m)

include h0 hL hwf hm

lemma placeOf_lt {a b : UInt64} (ha : Covered mallocs a) (hb : Covered mallocs b) (h : a < b) :
    placeOf m a < placeOf m b := by
  rw [UInt64.lt_iff_toNat_lt, placeOf_toNat h0 hL hwf hm ha, placeOf_toNat h0 hL hwf hm hb]
  exact compress_strictMono h0 (inUse_toNat.mpr ha) (UInt64.lt_iff_toNat_lt.mp h)

lemma placeOf_le {a b : UInt64} (ha : Covered mallocs a) (hb : Covered mallocs b) (h : a ≤ b) :
    placeOf m a ≤ placeOf m b := by
  rcases lt_or_eq_of_le h with hlt | rfl
  · exact le_of_lt (placeOf_lt h0 hL hwf hm ha hb hlt)
  · exact le_refl _

lemma placeOf_inj {a b : UInt64} (ha : Covered mallocs a) (hb : Covered mallocs b)
    (h : placeOf m a = placeOf m b) : a = b := by
  rcases lt_trichotomy a b with hlt | rfl | hlt
  · exact absurd h (ne_of_lt (placeOf_lt h0 hL hwf hm ha hb hlt))
  · rfl
  · exact absurd h (ne_of_gt (placeOf_lt h0 hL hwf hm hb ha hlt))

/-- The moved blocks are where the map puts the addresses of the blocks. -/
lemma inUse_moved : InUse (movedBlocks m mallocs)
    = fun x => ∃ b, InUse mallocs b ∧ compress cacheLine.toNat (InUse mallocs) b = x := by
  funext x
  apply propext
  rw [inUse_iff]
  constructor
  · rintro ⟨q, hq, hlo, hhi⟩
    obtain ⟨p, hp, rfl⟩ := List.mem_map.mp hq
    have hple := UInt64.le_iff_toNat_le.mp (hwf p hp)
    have hbegin : Covered mallocs p.1 := ⟨p, hp, le_refl _, hwf p hp⟩
    have hend : Covered mallocs p.2 := ⟨p, hp, hwf p hp, le_refl _⟩
    simp only [placeOf_toNat h0 hL hwf hm hbegin, placeOf_toNat h0 hL hwf hm hend] at hlo hhi
    -- along the block the map moves one for one
    have hrun : ∀ k, p.1.toNat + k ≤ p.2.toNat →
        compress cacheLine.toNat (InUse mallocs) (p.1.toNat + k)
          = compress cacheLine.toNat (InUse mallocs) p.1.toNat + k := by
      intro k hk
      refine compress_add h0 k fun y h1 h2 => inUse_iff.mpr ⟨p, hp, h1, by omega⟩
    have hwidth := hrun (p.2.toNat - p.1.toNat) (by omega)
    rw [Nat.add_sub_cancel' hple] at hwidth
    refine ⟨p.1.toNat + (x - compress cacheLine.toNat (InUse mallocs) p.1.toNat),
      inUse_iff.mpr ⟨p, hp, by omega, by omega⟩, ?_⟩
    rw [hrun _ (by omega)]
    omega
  · rintro ⟨b, hb, rfl⟩
    obtain ⟨p, hp, hlo, hhi⟩ := inUse_iff.mp hb
    have hple := UInt64.le_iff_toNat_le.mp (hwf p hp)
    have hbegin : Covered mallocs p.1 := ⟨p, hp, le_refl _, hwf p hp⟩
    have hend : Covered mallocs p.2 := ⟨p, hp, hwf p hp, le_refl _⟩
    refine ⟨_, List.mem_map.mpr ⟨p, hp, rfl⟩, ?_, ?_⟩
    · rw [placeOf_toNat h0 hL hwf hm hbegin]
      exact (compress_le_iff h0 (inUse_toNat.mpr hbegin) hb).mpr hlo
    · rw [placeOf_toNat h0 hL hwf hm hend]
      exact (compress_le_iff h0 hb (inUse_toNat.mpr hend)).mpr hhi

end Places

/-- The moved blocks get a map of their own, which moves nothing. -/
lemma exists_map_of_moved (h0 : 0 < cacheLine.toNat) (hL : cacheLine.toNat ≤ 2 ^ 63)
    (hne : mallocs ≠ []) (hlen : mallocs.length < 2 ^ 31) (hwf : WellFormed mallocs)
    (hm : addressMap cacheLine mallocs = .ok m) :
    ∃ m', addressMap cacheLine (movedBlocks m mallocs) = .ok m' ∧
      m'.maxAddress = m.maxAddress ∧ ∀ a, Covered mallocs a →
        remapAddress (placeOf m a) m'.regions m'.offsets = .ok (placeOf m a) := by
  have hcacheLine : cacheLine ≠ 0 := by
    rintro rfl
    simp at h0
  obtain ⟨m', hm'⟩ := addressMap_returns_iff.mpr
    ⟨hcacheLine, show movedBlocks m mallocs ≠ [] by simpa [movedBlocks] using hne,
      countersFit_of_length (by simpa [movedBlocks] using hlen)⟩
  have hbegin : ∀ p ∈ mallocs, Covered mallocs p.1 := fun p hp => ⟨p, hp, le_refl _, hwf p hp⟩
  have hend : ∀ p ∈ mallocs, Covered mallocs p.2 := fun p hp => ⟨p, hp, hwf p hp, le_refl _⟩
  have hwf' : WellFormed (movedBlocks m mallocs) := by
    intro q hq
    obtain ⟨p, hp, rfl⟩ := List.mem_map.mp hq
    exact placeOf_le h0 hL hwf hm (hbegin p hp) (hend p hp) (hwf p hp)
  have hstays : ∀ a, Covered mallocs a → mappedAddress cacheLine
      (movedBlocks m mallocs) (placeOf m a)
        = (placeOf m a).toNat := by
    intro a ha
    rw [mappedAddress, inUse_moved h0 hL hwf hm, placeOf_toNat h0 hL hwf hm ha]
    exact compress_again h0 _ _
  refine ⟨m', hm', ?_, fun a ha => ?_⟩
  · obtain ⟨p, hp, hlast⟩ := exists_last_end hne
    have hlast' : ∀ q ∈ movedBlocks m mallocs,
        q.2 ≤ (placeOf m p.1, placeOf m p.2).2 := by
      intro q hq
      obtain ⟨p', hp', rfl⟩ := List.mem_map.mp hq
      exact placeOf_le h0 hL hwf hm (hend p' hp') (hend p hp) (hlast p' hp')
    rw [← UInt64.toNat_inj,
      addressMap_maxAddress h0 hL hwf' hm' (List.mem_map.mpr ⟨p, hp, rfl⟩) hlast',
      hstays p.2 (hend p hp), placeOf_toNat h0 hL hwf hm (hend p hp),
      addressMap_maxAddress h0 hL hwf hm hp hlast, mappedAddress]
  · have hcovered : Covered (movedBlocks m mallocs)
        (placeOf m a) := by
      obtain ⟨p, hp, hlo, hhi⟩ := ha
      exact ⟨_, List.mem_map.mpr ⟨p, hp, rfl⟩,
        placeOf_le h0 hL hwf hm (hbegin p hp) ⟨p, hp, hlo, hhi⟩ hlo,
        placeOf_le h0 hL hwf hm ⟨p, hp, hlo, hhi⟩ (hend p hp) hhi⟩
    obtain ⟨a', ha', hplace⟩ := addressMap_spec h0 hL hwf' hm' hcovered
    rw [hstays a ha] at hplace
    rw [ha', UInt64.toNat_inj.mp hplace]

end Again

section Load

variable {p : Parsed} {cacheLine : UInt64} {t : Trace}

/-- **A loaded trace is loaded to itself.**  What the constructor has indexed and then moved can be
indexed and moved again: no assertion fires, and types, contexts, snapshots, addresses and the
maximum are those that it has.  Moving keeps the order of addresses, and the moved blocks already
lie on the lowest lines. -/
theorem load_again (h : Trace.load p cacheLine = .ok t) (hL : cacheLine.toNat ≤ 2 ^ 63)
    (hlen : (mallocsOf p.events).length < 2 ^ 31) (hwf : WellFormed (mallocsOf p.events)) :
    Trace.load t.toParsed cacheLine = .ok t := by
  obtain ⟨haccepted, m, hm, mapped, hmapped, rfl⟩ := load_eq_ok.mp h
  obtain ⟨hcacheLine, hne, -⟩ := addressMap_returns_iff.mp ⟨m, hm⟩
  have h0 := cacheLine_pos hcacheLine
  have hreturns : ∀ e ∈ p.events, ∃ e', remapEvent m e = .ok e' :=
    checked_forall₂_returns_iff.mp ⟨mapped, hmapped⟩
  have hmoves := moves_of_mapped h0 hL hwf hm hreturns
  have hlt : ∀ a b, Covered (mallocsOf p.events) a → Covered (mallocsOf p.events) b → a < b →
      placeOf m a < placeOf m b := fun _ _ => placeOf_lt h0 hL hwf hm
  have hinj : ∀ a b, Covered (mallocsOf p.events) a → Covered (mallocsOf p.events) b →
      placeOf m a = placeOf m b → a = b := fun _ _ => placeOf_inj h0 hL hwf hm
  obtain ⟨m', hm', hmax, hstays⟩ := exists_map_of_moved h0 hL hne hlen hwf hm
  obtain rfl := mapped_eq_map hmapped
  refine load_eq_ok.mpr ⟨accepted_map hinj hmoves haccepted, m', ?_, p.events.map (moveEvent m),
    ?_, ?_⟩
  · rw [mallocsOf_map hreturns]
    exact hm'
  · refine List.forall₂_same.mpr fun e' he' => ?_
    obtain ⟨e, he, rfl⟩ := List.mem_map.mp he'
    obtain ⟨e', he'⟩ := hreturns e he
    obtain ⟨-, htype, -, -, harg2⟩ := remapEvent_fields he'
    have hmove : moveEvent m e = e' := by
      rw [moveEvent, he']
      rfl
    refine remapEvent_eq_ok.mpr ⟨(moveEvent m e).arg1, ?_, ?_⟩
    · rw [hmoves.address e he]
      exact hstays _ (hmoves.known e he)
    · split_ifs with hmalloc
      · rw [hmove, htype] at hmalloc
        have hend := place_of_remapAddress h0 hL hwf hm (harg2 hmalloc)
        refine ⟨(moveEvent m e).arg2, ?_, rfl⟩
        rw [hmove, ← placeOf_of_ok (harg2 hmalloc)]
        exact hstays _ (inUse_toNat.mp hend.1)
      · rfl
  · obtain ⟨htypes, hcontexts, hregions⟩ := indexOf_map hlt hinj hmoves
    simp only [indexedTrace, htypes, hcontexts, hregions, hmax]

/-- Two blocks are loaded, and loaded again. -/
theorem twoBlocks_again : ∃ t, Trace.load twoBlocks.toParsed 1024 = .ok t ∧
    Trace.load t.toParsed 1024 = .ok t := by
  obtain ⟨t, ht⟩ := twoBlocks_load
  exact ⟨t, ht, load_again ht (by decide) (by decide) (by decide)⟩

end Load

end PerVERT
