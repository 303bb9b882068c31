import PerVERT.Backend.Compaction
import PerVERT.Backend.ContextViews
import PerVERT.Frontend.MemMap

/-!
# What the derivative of a context tells

`/f/context_deriv` follows the events of a context through the compressed address space, and sends
for each of them how many lines it is away from the one before.  There the lines that no block
touches are left out, so this is a distance in the address space of the program that was traced.

* `jumps` — the lines in use between each event of a context and the one before.
* `derivLoop_moved` — the loop over the moved events, one event after the other.
* **`contextDeriv_jumps`** — the answer for a READ or a WRITE.
-/

namespace PerVERT

/-- For each event its index, and how many lines in use there are from the address before on to its
own. -/
noncomputable def jumps (mallocs : List (UInt64 × UInt64)) : ℕ → List Event → List (ℤ × ℤ)
  | _, [] => []
  | address, e :: es =>
      (toInt e.index.toNat, linesBetween 1024 (SpannedAddress mallocs) address e.arg1.toNat)
        :: jumps mallocs e.arg1.toNat es

section Deriv

variable {p : Parsed} {t : Trace} {m : AddressMap} {e : Event} {context : Text}

/-- **The line of an event** that was moved is the number of the lines in use below. -/
lemma line_moveEvent (hm : addressMap 1024 (mallocsOf p.events) = .ok m)
    (he : ∃ e', remapEvent m e = .ok e') :
    (moveEvent m e).index = e.index ∧
      (moveEvent m e).arg1.toNat / 1024 = linesBelow (mallocsOf p.events) e.arg1 := by
  obtain ⟨e', he'⟩ := he
  have hmove : moveEvent m e = e' := by
    rw [moveEvent, he']
    rfl
  obtain ⟨hindex, -, -, haddress, -⟩ := remapEvent_fields he'
  obtain ⟨a', ha', hplace⟩ :=
    addressMap_place (by decide) (by decide) hm (covered_of_remapAddress haddress)
  rw [haddress] at ha'
  cases ha'
  rw [inUse_eq_spannedAddress hm] at hplace
  refine ⟨by rw [hmove, hindex], ?_⟩
  rw [hmove, hplace]
  exact compress_div (by decide) _ _

/-- An event that was moved is an access if it was one, and keeps its context. -/
lemma moveEvent_kind (he : ∃ e', remapEvent m e = .ok e') :
    (moveEvent m e).isAccess = e.isAccess ∧ (moveEvent m e).context = e.context := by
  obtain ⟨e', he'⟩ := he
  obtain ⟨-, htype, hcontext, -, -⟩ := remapEvent_fields he'
  have hmove : moveEvent m e = e' := by
    rw [moveEvent, he']
    rfl
  exact ⟨by rw [hmove, Event.isAccess, Event.isAccess, htype], by rw [hmove, hcontext]⟩

lemma derivLoop_cons {es : List Event} {lastLine : ℤ} : derivLoop (e :: es) lastLine
    = (intAdd (toInt (e.arg1 / 1024).toNat) (-lastLine) >>= fun difference =>
        intAbs difference >>= fun delta =>
        derivLoop es (toInt (e.arg1 / 1024).toNat) >>= fun events =>
        pure ((toInt e.index.toNat, delta) :: events)) := rfl

/-- **The loop**, behind some address. -/
lemma derivLoop_moved (hm : addressMap 1024 (mallocsOf p.events) = .ok m) :
    ∀ {es : List Event} {address : ℕ}, (∀ e ∈ es, ∃ e', remapEvent m e = .ok e') →
      (∀ e ∈ es, (moveEvent m e).arg1.toNat < 2 ^ 31) →
      lineRank 1024 (SpannedAddress (mallocsOf p.events)) address < 2 ^ 31 →
      derivLoop (es.map (moveEvent m))
          (lineRank 1024 (SpannedAddress (mallocsOf p.events)) address)
        = .ok (jumps (mallocsOf p.events) address es)
  | [], _, _, _, _ => rfl
  | e :: es, address, hmoved, hfits, hbefore => by
      obtain ⟨hindex, hline⟩ := line_moveEvent hm (hmoved e List.mem_cons_self)
      have hfit := hfits e List.mem_cons_self
      have hsmall : linesBelow (mallocsOf p.events) e.arg1 < 2 ^ 31 := by omega
      have hsent : toInt ((moveEvent m e).arg1 / 1024).toNat
          = (linesBelow (mallocsOf p.events) e.arg1 : ℕ) := by
        rw [UInt64.toNat_div, show (1024 : UInt64).toNat = 1024 from rfl, hline]
        exact toInt_of_inInt (by rw [InInt]; omega)
      obtain ⟨hdifference, hdelta⟩ := @distance_eq (linesBelow (mallocsOf p.events) e.arg1)
        (lineRank 1024 (SpannedAddress (mallocsOf p.events)) address) hsmall (by omega) (by omega)
      have hrest := @derivLoop_moved hm es e.arg1.toNat
        (fun x hx => hmoved x (List.mem_cons_of_mem _ hx))
        (fun x hx => hfits x (List.mem_cons_of_mem _ hx)) hsmall
      have hbetween := natAbs_lineRank 1024 (SpannedAddress (mallocsOf p.events)) address
        e.arg1.toNat
      rw [List.map_cons, derivLoop_cons, hsent, hdifference, checked_ok_bind, hdelta,
        checked_ok_bind]
      show (derivLoop (es.map (moveEvent m)) (lineRank 1024 (SpannedAddress (mallocsOf p.events))
        e.arg1.toNat) >>= _) = _
      rw [hrest, checked_ok_bind, hindex, jumps, ← hbetween]
      rfl

/-- The events of a context are the moved ones that have it. -/
lemma contextEvents_moved (hload : Trace.load p 1024 = .ok t)
    (hmoved : ∀ e ∈ p.events, ∃ e', remapEvent m e = .ok e')
    (hevents : t.events = p.events.map (moveEvent m)) (context : Text) :
    contextEvents t context
      = (p.events.filter fun e => e.context = context).map (moveEvent m) := by
  obtain ⟨-, m', -, mapped, -, hload⟩ := load_eq_ok.mp hload
  have hindex : t.byContext context = positions (fun e => e.context = context) p.events := by
    rw [hload]
    rfl
  have hkeeps : ∀ e ∈ p.events, decide ((moveEvent m e).context = context)
      = decide (e.context = context) := by
    intro e he
    rw [(moveEvent_kind (hmoved e he)).2]
  have hpositions : positions (fun e => e.context = context) (p.events.map (moveEvent m))
      = positions (fun e => e.context = context) p.events := by
    rw [positions_map]
    exact positions_congr hkeeps
  rw [contextEvents, hindex, hevents, ← hpositions, pointees_positions, List.filter_map]
  exact congrArg (List.map (moveEvent m)) (List.filter_congr hkeeps)

/-- **The jumps of a context.**  The answer for a READ or a WRITE has one entry for each event of
its context, in their order: how many lines that blocks of the traced program touch lie between the
address before and this one, where the first event is compared with address zero.  The handler
subtracts remapped addresses, so the gaps between blocks do not count. -/
theorem contextDeriv_jumps (hload : Trace.load p 1024 = .ok t) (hfits : Fits t) {f : ℕ}
    (hget : p.events[f]? = some e) (haccess : e.isAccess = true) :
    f_context_deriv t f = .ok (some (jumps (mallocsOf p.events) 0
      (p.events.filter fun x => x.context = e.context))) := by
  obtain ⟨-, m, hm, mapped, hmapped, ht⟩ := load_eq_ok.mp hload
  have hmoved : ∀ e ∈ p.events, ∃ e', remapEvent m e = .ok e' :=
    checked_forall₂_returns_iff.mp ⟨mapped, hmapped⟩
  have hevents : t.events = p.events.map (moveEvent m) := by
    rw [ht]
    exact mapped_eq_map hmapped
  have hsent : t.events[f]? = some (moveEvent m e) := by
    rw [hevents, List.getElem?_map, hget]
    rfl
  have hcheck := frame_passes (lt_trans (lt_of_getElem? hsent) hfits.length) hsent
  obtain ⟨hkind, hcontext⟩ := moveEvent_kind (hmoved e (List.mem_of_getElem? hget))
  have hzero : lineRank 1024 (SpannedAddress (mallocsOf p.events)) 0 = 0 := by
    rw [lineRank, Nat.zero_div, Nat.count_zero]
  have hloop := @derivLoop_moved p m hm (p.events.filter fun x => x.context = e.context) 0
    (fun x hx => hmoved x (List.mem_filter.mp hx).1)
    (fun x hx => hfits.address _ (by
      rw [hevents]
      exact List.mem_map_of_mem (List.mem_filter.mp hx).1))
    (by omega)
  rw [hzero] at hloop
  rw [f_context_deriv, if_neg hcheck, vectorAt_of_getElem? hsent, checked_ok_bind,
    if_pos (hkind.trans haccess), hcontext, contextEvents_moved hload hmoved hevents]
  show (derivLoop _ ((0 : ℕ) : ℤ) >>= _) = _
  rw [hloop]
  rfl

/-- Of two blocks that are allocated far from each other: the jumps to their begins, and that of a
READ in the second. -/
theorem twoBlocks_jumps : ∃ t, Trace.load twoBlocks.toParsed 1024 = .ok t ∧
    f_context_deriv t 2 = .ok (some (jumps (mallocsOf twoBlocks.events) 0
      (twoBlocks.events.filter fun x => x.context = []))) := by
  obtain ⟨t, ht, hfits⟩ := @exists_of_any _ (Trace.load twoBlocks.toParsed 1024)
    (fun t => Fits t) (by decide +kernel)
  have hjumps := @contextDeriv_jumps twoBlocks.toParsed t ⟨2, .READ, 0x5017, 0, []⟩ ht
    (of_decide_eq_true hfits) 2 rfl rfl
  exact ⟨t, ht, hjumps⟩

end Deriv

end PerVERT
