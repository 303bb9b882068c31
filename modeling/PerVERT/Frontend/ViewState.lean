import PerVERT.Core.Transition
import Mathlib.Data.Int.Notation
import Mathlib.Logic.Function.Basic

/-!
# The frame that is drawn

`ViewState` holds the current frame.  Each change of it asks `DB.f_mem_status` for the data of the
frame, which is drawn at once when it is cached, and else when the response arrives.

* `PageAction`, `Page`, `pageStep` — the user, the timers, and the responses, in any order.
* `DrawsCurrent` — the last call of `drawmockup` drew the data of the current frame.
* `InTime` — the condition on a step: a response arrives while the current frame is still asked
  for.
* **`drawsCurrent_iff`** — when all responses are in, the current frame is drawn just if all
  responses since the last frame change arrived in time.

`/f/counts` is cached throughout, so a continuation of `f_mem_status` draws at once.  Its argument
is some `Data`, which nothing here looks into.
-/

namespace PerVERT

/-! ## The page -/

/-- The variables of `ViewState`, those of `DB` that `f_mem_status` uses, and the canvas. -/
structure Page (Data : Type*) where
  currentFrame : ℤ
  maxFrame : ℤ
  playing : Bool
  /-- The intervals that are running. -/
  intervals : List ℕ
  playingTimer : Option ℕ
  /-- The id of the next interval. -/
  nextInterval : ℕ
  /-- `__f_mem_status`. -/
  cache : ℤ → Option Data
  /-- The frames of the requests that have no response yet. -/
  outstanding : List ℤ
  /-- The last call of `drawmockup`: the data it drew, and the frame these belong to. -/
  drawn : Option (ℤ × Data)
  /-- The frames `frameslider_change` was fired with, newest first. -/
  changes : List ℤ

variable {Data : Type*}

/-- Before the first frame change, with some frames in the cache. -/
def Page.start (cache : ℤ → Option Data) : Page Data where
  currentFrame := 0
  maxFrame := 0
  playing := false
  intervals := []
  playingTimer := none
  nextInterval := 0
  cache := cache
  outstanding := []
  drawn := none
  changes := []

def drawmockup (s : Page Data) (frame : ℤ) (data : Data) : Page Data :=
  { s with drawn := some (frame, data) }

/-- `DB.f_mem_status`, with the continuation of the memory view. -/
def f_mem_status_draw (s : Page Data) (frame : ℤ) : Page Data :=
  match s.cache frame with
  | some data => drawmockup s frame data
  | none => { s with outstanding := s.outstanding ++ [frame] }

/-- `setPlaying(false)`. -/
def pause (s : Page Data) : Page Data :=
  { s with
    playing := false
    intervals := match s.playingTimer with
      | some timer => s.intervals.erase timer
      | none => s.intervals }

def setCurrentFrame (s : Page Data) (f : ℤ) : Page Data :=
  if f > s.maxFrame then pause s
  else if f < 0 then pause s
  else f_mem_status_draw { s with currentFrame := f, changes := f :: s.changes } f

/-- An interval that is set while another runs leaves that one running. -/
def startInterval (s : Page Data) : Page Data :=
  { s with
    intervals := s.intervals ++ [s.nextInterval]
    playingTimer := some s.nextInterval
    nextInterval := s.nextInterval + 1 }

def setPlaying (s : Page Data) (v : Bool) : Page Data :=
  if v then
    startInterval
      (if s.currentFrame = s.maxFrame then setCurrentFrame { s with playing := true } 0
      else { s with playing := true })
  else pause s

/-- What happens to the page. -/
inductive PageAction (Data : Type*)
  | setCurrentFrame (f : ℤ)
  | stepCurrentFrame (amt : ℤ)
  | setPlaying (v : Bool)
  | togglePlaying
  | reset
  | setFrameRange (maxframe : ℤ)
  /-- An interval fires. -/
  | tick (timer : ℕ)
  /-- The `i`-th outstanding request succeeds. -/
  | success (i : ℕ) (data : Data)
  /-- It fails, which is only logged. -/
  | error (i : ℕ)

def pageStep (s : Page Data) : PageAction Data → Option (Page Data)
  | .setCurrentFrame f => some (setCurrentFrame s f)
  | .stepCurrentFrame amt => some (setCurrentFrame s (s.currentFrame + amt))
  | .setPlaying v => some (setPlaying s v)
  | .togglePlaying => some (setPlaying s (!s.playing))
  | .reset => some (setCurrentFrame (pause s) 0)
  | .setFrameRange maxframe => some { s with maxFrame := maxframe }
  | .tick timer =>
      if timer ∈ s.intervals then some (setCurrentFrame s (s.currentFrame + 1)) else none
  | .success i data =>
      s.outstanding[i]?.map fun frame =>
        drawmockup { s with
          cache := Function.update s.cache frame (some data)
          outstanding := s.outstanding.eraseIdx i } frame data
  | .error i => s.outstanding[i]?.map fun _ => { s with outstanding := s.outstanding.eraseIdx i }

/-! ## What is wanted, and when it is reached -/

/-- The last call of `drawmockup` drew the data of the current frame. -/
def DrawsCurrent (s : Page Data) : Prop :=
  ∃ data, s.drawn = some (s.currentFrame, data) ∧ s.cache s.currentFrame = some data

/-- A response must arrive while the current frame is asked for, be it the response to this very
request.  A request may fail unless the current frame then is neither drawn nor asked for. -/
def InTime (s : Page Data) : PageAction Data → Prop
  | .success _ _ => s.currentFrame ∈ s.outstanding
  | .error i => s.outstanding[i]? ≠ some s.currentFrame ∨
      s.currentFrame ∈ s.outstanding.eraseIdx i ∨ DrawsCurrent s
  | _ => True

instance [DecidableEq Data] (s : Page Data) : Decidable (DrawsCurrent s) :=
  decidable_of_iff (∃ data ∈ s.cache s.currentFrame, s.drawn = some (s.currentFrame, data))
    ⟨fun ⟨data, h, h'⟩ => ⟨data, h', h⟩, fun ⟨data, h', h⟩ => ⟨data, h, h'⟩⟩

instance [DecidableEq Data] (s : Page Data) : ∀ a, Decidable (InTime s a)
  | .success _ _ => inferInstanceAs (Decidable (s.currentFrame ∈ s.outstanding))
  | .error i => inferInstanceAs (Decidable (s.outstanding[i]? ≠ some s.currentFrame ∨
      s.currentFrame ∈ s.outstanding.eraseIdx i ∨ DrawsCurrent s))
  | .setCurrentFrame _ | .stepCurrentFrame _ | .setPlaying _ | .togglePlaying | .reset
  | .setFrameRange _ | .tick _ => isTrue trivial

/-! ## One step -/

section Step

variable {s s' : Page Data} {a : PageAction Data}

/-- The current frame is drawn, or asked for. -/
def Pending (s : Page Data) : Prop :=
  DrawsCurrent s ∨ s.currentFrame ∈ s.outstanding

/-- The frame has changed. -/
def Fired (s s' : Page Data) : Prop :=
  s'.changes = s'.currentFrame :: s.changes ∧ Pending s'

/-- Nothing has changed that matters to what is drawn. -/
structure Quiet (s s' : Page Data) : Prop where
  currentFrame : s'.currentFrame = s.currentFrame
  cache : s'.cache = s.cache
  outstanding : s'.outstanding = s.outstanding
  drawn : s'.drawn = s.drawn
  changes : s'.changes = s.changes

lemma quiet_pause (s : Page Data) : Quiet s (pause s) :=
  ⟨rfl, rfl, rfl, rfl, rfl⟩

lemma Quiet.pending_iff (h : Quiet s s') : Pending s' ↔ Pending s := by
  rw [Pending, Pending, DrawsCurrent, DrawsCurrent, h.currentFrame, h.cache, h.outstanding, h.drawn]

lemma setCurrentFrame_cases (s : Page Data) (f : ℤ) :
    Fired s (setCurrentFrame s f) ∨ Quiet s (setCurrentFrame s f) := by
  rw [setCurrentFrame]
  split_ifs with hmax hmin
  · exact Or.inr (quiet_pause s)
  · exact Or.inr (quiet_pause s)
  · left
    rw [f_mem_status_draw]
    split
    · next data hcache => exact ⟨rfl, Or.inl ⟨data, rfl, hcache⟩⟩
    · exact ⟨rfl, Or.inr (by simp)⟩

lemma setPlaying_cases (s : Page Data) (v : Bool) :
    Fired s (setPlaying s v) ∨ Quiet s (setPlaying s v) := by
  cases v with
  | false => exact Or.inr (quiet_pause s)
  | true =>
      simp only [setPlaying, if_true]
      split_ifs with hmax
      · rcases setCurrentFrame_cases { s with playing := true } 0 with h | h
        · exact Or.inl h
        · exact Or.inr ⟨h.currentFrame, h.cache, h.outstanding, h.drawn, h.changes⟩
      · exact Or.inr ⟨rfl, rfl, rfl, rfl, rfl⟩

/-- What a step can do. -/
lemma pageStep_cases (h : pageStep s a = some s') :
    Fired s s' ∨ (Quiet s s' ∧ InTime s a) ∨
    (∃ i frame data, a = .success i data ∧ s.outstanding[i]? = some frame ∧
      s' = drawmockup { s with
        cache := Function.update s.cache frame (some data)
        outstanding := s.outstanding.eraseIdx i } frame data) ∨
    ∃ i frame, a = .error i ∧ s.outstanding[i]? = some frame ∧
      s' = { s with outstanding := s.outstanding.eraseIdx i } := by
  cases a with
  | setCurrentFrame f =>
      cases Option.some.inj h
      exact (setCurrentFrame_cases s f).imp id fun hq => Or.inl ⟨hq, trivial⟩
  | stepCurrentFrame amt =>
      cases Option.some.inj h
      exact (setCurrentFrame_cases s _).imp id fun hq => Or.inl ⟨hq, trivial⟩
  | setPlaying v =>
      cases Option.some.inj h
      exact (setPlaying_cases s v).imp id fun hq => Or.inl ⟨hq, trivial⟩
  | togglePlaying =>
      cases Option.some.inj h
      exact (setPlaying_cases s _).imp id fun hq => Or.inl ⟨hq, trivial⟩
  | reset =>
      cases Option.some.inj h
      rcases setCurrentFrame_cases (pause s) 0 with hf | hq
      · exact Or.inl hf
      · exact Or.inr (Or.inl ⟨⟨hq.currentFrame, hq.cache, hq.outstanding, hq.drawn, hq.changes⟩,
          trivial⟩)
  | setFrameRange maxframe =>
      cases Option.some.inj h
      exact Or.inr (Or.inl ⟨⟨rfl, rfl, rfl, rfl, rfl⟩, trivial⟩)
  | tick timer =>
      simp only [pageStep] at h
      split_ifs at h
      cases Option.some.inj h
      exact (setCurrentFrame_cases s _).imp id fun hq => Or.inl ⟨hq, trivial⟩
  | success i data =>
      obtain ⟨frame, hi, rfl⟩ := Option.map_eq_some_iff.mp h
      exact Or.inr (Or.inr (Or.inl ⟨i, frame, data, rfl, hi, rfl⟩))
  | error i =>
      obtain ⟨frame, hi, rfl⟩ := Option.map_eq_some_iff.mp h
      exact Or.inr (Or.inr (Or.inr ⟨i, frame, rfl, hi, rfl⟩))

/-- **One step** that does not change the frame: the current frame stays drawn or asked for just
when the step is in time. -/
lemma pending_step (h : pageStep s a = some s') (hchanges : s'.changes = s.changes) :
    Pending s' ↔ Pending s ∧ InTime s a := by
  rcases pageStep_cases h with hfired | ⟨hquiet, htime⟩ | ⟨i, frame, data, rfl, hi, rfl⟩ |
    ⟨i, frame, rfl, hi, rfl⟩
  · -- a change of the frame
    rw [hfired.1] at hchanges
    simp at hchanges
  · rw [hquiet.pending_iff]
    exact (and_iff_left htime).symm
  · -- a response, to be drawn
    have hmem : frame ∈ s.outstanding := List.mem_of_getElem? hi
    by_cases hframe : frame = s.currentFrame
    · subst hframe
      refine iff_of_true (Or.inl ⟨data, rfl, ?_⟩) ⟨Or.inr hmem, hmem⟩
      exact Function.update_self ..
    · have hdrawn : ¬ DrawsCurrent (drawmockup { s with
          cache := Function.update s.cache frame (some data)
          outstanding := s.outstanding.eraseIdx i } frame data) := by
        rintro ⟨d, hd, -⟩
        exact hframe (congrArg Prod.fst (Option.some.inj hd))
      constructor
      · rintro (hdraws | hout)
        · exact absurd hdraws hdrawn
        · have hout : s.currentFrame ∈ s.outstanding := List.mem_of_mem_eraseIdx hout
          exact ⟨Or.inr hout, hout⟩
      · rintro ⟨-, hout⟩
        obtain ⟨j, hj⟩ := List.mem_iff_getElem?.mp hout
        have hji : j ≠ i := fun heq => hframe (Option.some.inj (hi.symm.trans (heq ▸ hj)))
        exact Or.inr (List.mem_eraseIdx_iff_getElem?.mpr ⟨j, hji, hj⟩)
  · -- a request that failed
    constructor
    · rintro (hdraws | hout)
      · exact ⟨Or.inl hdraws, Or.inr (Or.inr hdraws)⟩
      · exact ⟨Or.inr (List.mem_of_mem_eraseIdx hout), Or.inr (Or.inl hout)⟩
    · rintro ⟨hpending, hne | hout | hdraws⟩
      · rcases hpending with hdraws | hout
        · exact Or.inl hdraws
        · obtain ⟨j, hj⟩ := List.mem_iff_getElem?.mp hout
          have hji : j ≠ i := fun heq => hne (heq ▸ hj)
          exact Or.inr (List.mem_eraseIdx_iff_getElem?.mpr ⟨j, hji, hj⟩)
      · exact Or.inr hout
      · exact Or.inl hdraws

/-- A step changes the frame, or it does not. -/
lemma changes_step (h : pageStep s a = some s') :
    (∃ f, s'.changes = f :: s.changes ∧ Pending s') ∨ s'.changes = s.changes := by
  rcases pageStep_cases h with ⟨hchanges, hpending⟩ | ⟨hquiet, -⟩ | ⟨i, frame, data, -, -, rfl⟩ |
    ⟨i, frame, -, -, rfl⟩
  · exact Or.inl ⟨_, hchanges, hpending⟩
  · exact Or.inr hquiet.changes
  · exact Or.inr rfl
  · exact Or.inr rfl

end Step

/-! ## Runs -/

section Runs

variable {cache : ℤ → Option Data} {s : Page Data} {acts : List (PageAction Data)}

/-- In a run that ends with these changes, the steps after the last of them were in time. -/
def InTimeSince (cache : ℤ → Option Data) (changes : List ℤ) (acts : List (PageAction Data)) :
    Prop :=
  StepsMeet pageStep (.start cache) (fun _ s a => s.changes = changes → InTime s a) acts

instance [DecidableEq Data] (cache : ℤ → Option Data) (changes : List ℤ)
    (acts : List (PageAction Data)) : Decidable (InTimeSince cache changes acts) :=
  inferInstanceAs (Decidable (StepsMeet _ _ _ _))

/-- The current frame is drawn or asked for just if the steps since it was set were in time. -/
lemma pending_iff_inTimeSince (hrun : run pageStep (.start cache) acts = some s)
    (hchanged : s.changes ≠ []) : Pending s ↔ InTimeSince cache s.changes acts := by
  generalize hlast : s.changes = last at hchanged ⊢
  -- before the last change there is no condition, and after it the two go together
  refine (@run_induction _ _ pageStep (.start cache)
    (fun acts s => (s.changes.length < last.length → InTimeSince cache last acts) ∧
      (s.changes = last → (Pending s ↔ InTimeSince cache last acts)))
    ⟨fun _ => StepsMeet.nil, fun h => absurd h.symm hchanged⟩ ?_ acts s hrun).2 hlast
  rintro acts s a s' hrun ⟨hbefore, hsince⟩ hstep
  have hsnoc : InTimeSince cache last (acts ++ [a]) ↔
      InTimeSince cache last acts ∧ (s.changes = last → InTime s a) := stepsMeet_append hrun
  rw [hsnoc]
  have hearly : s.changes.length < last.length →
      InTimeSince cache last acts ∧ (s.changes = last → InTime s a) := fun hlt =>
    ⟨hbefore hlt, fun heq => absurd (congrArg List.length heq) (Nat.ne_of_lt hlt)⟩
  rcases changes_step hstep with ⟨f, hchanges, hpending⟩ | hchanges
  · have hlength : s'.changes.length = s.changes.length + 1 := by rw [hchanges]; rfl
    refine ⟨fun hlt => hearly (by omega), fun heq => iff_of_true hpending (hearly ?_)⟩
    rw [← heq]
    omega
  · refine ⟨fun hlt => hearly (by rwa [← hchanges]), fun heq => ?_⟩
    have heq : s.changes = last := hchanges ▸ heq
    rw [pending_step hstep hchanges, hsince heq]
    simp [heq]

/-- **When the picture is right.**  When a run ends with nothing outstanding, and the frame has been
changed, then the current frame is the one that is drawn just if every response since the last
change of the frame arrived in time. -/
theorem drawsCurrent_iff (hrun : run pageStep (.start cache) acts = some s)
    (hchanged : s.changes ≠ []) (hdone : s.outstanding = []) :
    DrawsCurrent s ↔ InTimeSince cache s.changes acts := by
  rw [← pending_iff_inTimeSince hrun hchanged, Pending, hdone]
  simp

end Runs

/-! ## Two runs -/

/-- Two frames are asked for, and the responses come in order. -/
def inOrderResponses : List (PageAction ℕ) :=
  [.setFrameRange 3, .setCurrentFrame 1, .stepCurrentFrame 1, .success 0 10, .success 0 20]

/-- The response for the first frame comes last. -/
def lateResponse : List (PageAction ℕ) :=
  [.setFrameRange 3, .setCurrentFrame 1, .stepCurrentFrame 1, .success 1 20, .success 0 10]

theorem inOrderResponses_drawsCurrent :
    ∃ s, run pageStep (.start fun _ => none) inOrderResponses = some s ∧ DrawsCurrent s :=
  ⟨_, rfl, (@drawsCurrent_iff _ (fun _ => none) _ inOrderResponses rfl (by decide) rfl).mpr
    (by decide)⟩

/-- Frame 2 is the current one, and frame 1 is drawn. -/
theorem lateResponse_not_drawsCurrent :
    ∃ s, run pageStep (.start fun _ => none) lateResponse = some s ∧ s.changes ≠ [] ∧
      s.outstanding = [] ∧ ¬ DrawsCurrent s :=
  ⟨_, rfl, by decide, rfl, by decide⟩

end PerVERT
