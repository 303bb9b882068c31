import PerVERT.Frontend.ViewState

/-!
# The interval that plays

While the view plays, an interval moves it on by a frame every 100 ms.  `setPlaying` starts it and
stops it, and keeps the handle of the last one only.

* `PlaysAsShown` — one interval while the view plays, none while it is paused.
* `PlaybackInv` — the handle is the one of the interval that runs, and the frame is one.
* **`playsAsShown_iff`** — the intervals are right all along just if play was only ever started
  while the view was paused.
* `PlayedTo` — how far a view has played that is left alone; **`play_shows`** — it shows every frame
  up to the last one, each once and in their order, and then it pauses.
-/

namespace PerVERT

variable {Data : Type*}

/-- The intervals are those of a view that plays, or is paused. -/
structure PlaysAsShown (s : Page Data) : Prop where
  count : s.intervals.length = if s.playing then 1 else 0
  /-- A paused view does not advance by itself. -/
  still : s.playing = false → ∀ timer, pageStep s (.tick timer) = none
  /-- At most one step per interval. -/
  one_step : ∀ timer timer', pageStep s (.tick timer) ≠ none → pageStep s (.tick timer') ≠ none →
    timer = timer'

/-- Play is started while the view is paused. -/
def StartsPaused (s : Page Data) : PageAction Data → Prop
  | .setPlaying true => s.playing = false
  | _ => True

instance (s : Page Data) : ∀ a, Decidable (StartsPaused s a)
  | .setPlaying true => inferInstanceAs (Decidable (s.playing = false))
  | .setPlaying false | .setCurrentFrame _ | .stepCurrentFrame _ | .togglePlaying | .reset
  | .setFrameRange _ | .tick _ | .success _ _ | .error _ => isTrue trivial

/-- The handle is the one of the interval that runs. -/
structure PlaybackInv (s : Page Data) : Prop where
  frame : 0 ≤ s.currentFrame
  timers : if s.playing then ∃ timer, s.intervals = [timer] ∧ s.playingTimer = some timer
    else s.intervals = []

section Step

variable {s s' : Page Data} {a : PageAction Data}

lemma PlaybackInv.paused (h : PlaybackInv s) (hp : s.playing = false) : s.intervals = [] := by
  simpa [hp] using h.timers

lemma PlaybackInv.playing (h : PlaybackInv s) (hp : s.playing = true) :
    ∃ timer, s.intervals = [timer] ∧ s.playingTimer = some timer := by
  simpa [hp] using h.timers

lemma playbackInv_start (cache : ℤ → Option Data) : PlaybackInv (.start cache) :=
  ⟨Int.le_refl 0, rfl⟩

lemma tick_ne_none {timer : ℕ} : pageStep s (.tick timer) ≠ none ↔ timer ∈ s.intervals := by
  simp [pageStep]

lemma PlaybackInv.playsAsShown (h : PlaybackInv s) : PlaysAsShown s := by
  cases hp : s.playing with
  | false =>
      have hnil := h.paused hp
      refine ⟨by simp [hnil, hp], fun _ timer => by simp [pageStep, hnil], ?_⟩
      intro timer timer' ht
      simp [tick_ne_none, hnil] at ht
  | true =>
      obtain ⟨timer, hone, -⟩ := h.playing hp
      refine ⟨by simp [hone, hp], fun hpaused => by simp [hp] at hpaused, ?_⟩
      intro t t' ht ht'
      simp only [tick_ne_none, hone, List.mem_singleton] at ht ht'
      exact ht.trans ht'.symm

/-- What no interval looks at may change. -/
lemma PlaybackInv.of_eq (h : PlaybackInv s) (hframe : 0 ≤ s'.currentFrame)
    (hplaying : s'.playing = s.playing) (hintervals : s'.intervals = s.intervals)
    (htimer : s'.playingTimer = s.playingTimer) : PlaybackInv s' := by
  refine ⟨hframe, ?_⟩
  rw [hplaying, hintervals, htimer]
  exact h.timers

/-- **A pause** stops the interval that runs. -/
lemma PlaybackInv.pause (h : PlaybackInv s) : PlaybackInv (pause s) := by
  refine ⟨h.frame, ?_⟩
  show (PerVERT.pause s).intervals = []
  cases hp : s.playing with
  | false => cases htimer : s.playingTimer <;> simp [PerVERT.pause, h.paused hp, htimer]
  | true =>
      obtain ⟨timer, hone, htimer⟩ := h.playing hp
      simp [PerVERT.pause, hone, htimer]

/-- What is drawn does not matter to the intervals. -/
lemma PlaybackInv.draw (h : PlaybackInv s) (frame : ℤ) :
    PlaybackInv (f_mem_status_draw s frame) := by
  rw [f_mem_status_draw]
  split
  · exact h.of_eq h.frame rfl rfl rfl
  · exact h.of_eq h.frame rfl rfl rfl

/-- **A frame change** leaves the interval running, or pauses at the end of the range. -/
lemma PlaybackInv.setCurrentFrame (h : PlaybackInv s) (f : ℤ) :
    PlaybackInv (setCurrentFrame s f) := by
  rw [PerVERT.setCurrentFrame]
  split_ifs with hmax hmin
  · exact h.pause
  · exact h.pause
  · have hmoved : PlaybackInv { s with currentFrame := f, changes := f :: s.changes } :=
      h.of_eq (Int.not_lt.mp hmin) rfl rfl rfl
    exact hmoved.draw f

/-- Within the range, a frame change touches neither the intervals nor the handle. -/
lemma setCurrentFrame_within {f : ℤ} (hmax : f ≤ s.maxFrame) (hmin : 0 ≤ f) :
    (setCurrentFrame s f).currentFrame = f ∧ (setCurrentFrame s f).playing = s.playing ∧
      (setCurrentFrame s f).intervals = s.intervals := by
  rw [setCurrentFrame, if_neg (by omega), if_neg (by omega), f_mem_status_draw]
  split
  · exact ⟨rfl, rfl, rfl⟩
  · exact ⟨rfl, rfl, rfl⟩

/-- **Starting to play** adds an interval to those that run, also when it starts from the first
frame again, and its handle is the one that is kept. -/
lemma setPlaying_true (h : 0 ≤ s.currentFrame) :
    0 ≤ (setPlaying s true).currentFrame ∧ (setPlaying s true).playing = true ∧
      ∃ timer, (setPlaying s true).intervals = s.intervals ++ [timer] ∧
        (setPlaying s true).playingTimer = some timer := by
  rw [setPlaying, if_pos rfl]
  split_ifs with hend
  · have hrange : (0 : ℤ) ≤ s.maxFrame := hend ▸ h
    obtain ⟨hframe, hplaying, hintervals⟩ :=
      @setCurrentFrame_within _ { s with playing := true } 0 hrange (Int.le_refl 0)
    refine ⟨Int.le_of_eq hframe.symm, hplaying, _, ?_, rfl⟩
    show (setCurrentFrame { s with playing := true } 0).intervals ++ _ = _
    rw [hintervals]
  · exact ⟨h, rfl, _, rfl, rfl⟩

lemma PlaybackInv.setPlaying (h : PlaybackInv s) {v : Bool} (hv : v = true → s.playing = false) :
    PlaybackInv (setPlaying s v) := by
  cases v with
  | false => exact h.pause
  | true =>
      obtain ⟨hframe, hplaying, timer, hintervals, htimer⟩ := setPlaying_true h.frame
      refine ⟨hframe, ?_⟩
      rw [hplaying, if_pos rfl]
      refine ⟨timer, ?_, htimer⟩
      rw [hintervals, h.paused (hv rfl), List.nil_append]

/-- **One step** that starts to play only if the view is paused. -/
lemma PlaybackInv.step (h : PlaybackInv s) (ha : StartsPaused s a) (hs : pageStep s a = some s') :
    PlaybackInv s' := by
  cases a with
  | setCurrentFrame f =>
      cases Option.some.inj hs
      exact h.setCurrentFrame f
  | stepCurrentFrame amt =>
      cases Option.some.inj hs
      exact h.setCurrentFrame _
  | setPlaying v =>
      cases Option.some.inj hs
      refine h.setPlaying ?_
      rintro rfl
      exact ha
  | togglePlaying =>
      cases Option.some.inj hs
      exact h.setPlaying fun hv => by simpa using hv
  | reset =>
      cases Option.some.inj hs
      exact h.pause.setCurrentFrame 0
  | setFrameRange maxframe =>
      cases Option.some.inj hs
      exact h.of_eq h.frame rfl rfl rfl
  | tick timer =>
      simp only [pageStep] at hs
      split_ifs at hs
      cases Option.some.inj hs
      exact h.setCurrentFrame _
  | success i data =>
      obtain ⟨frame, -, rfl⟩ := Option.map_eq_some_iff.mp hs
      exact h.of_eq h.frame rfl rfl rfl
  | error i =>
      obtain ⟨frame, -, rfl⟩ := Option.map_eq_some_iff.mp hs
      exact h.of_eq h.frame rfl rfl rfl

/-- A second interval is one too many. -/
lemma not_playsAsShown_step (h : PlaybackInv s) (ha : ¬ StartsPaused s a)
    (hs : pageStep s a = some s') : ¬ PlaysAsShown s' := by
  unfold StartsPaused at ha
  split at ha
  · cases Option.some.inj hs
    obtain ⟨timer, hone, -⟩ := h.playing ((Bool.not_eq_false _).mp ha)
    obtain ⟨-, hplaying, timer', hintervals, -⟩ := setPlaying_true h.frame
    intro hshown
    have hcount := hshown.count
    rw [hintervals, hplaying, hone] at hcount
    simp at hcount
  · exact absurd trivial ha

end Step

/-- **When the intervals are right.**  Of all the operations only `setPlaying(true)` can break them,
and it does whenever the view plays already: the handle of the running interval is overwritten, and
nothing can stop that interval any more.  In every other run there is one interval while the view
plays, and none while it is paused. -/
theorem playsAsShown_iff {cache : ℤ → Option Data} {acts : List (PageAction Data)} {s : Page Data}
    (hrun : run pageStep (.start cache) acts = some s) :
    (∀ n s', run pageStep (.start cache) (acts.take n) = some s' → PlaysAsShown s') ↔
      StepsMeet pageStep (.start cache) (fun _ => StartsPaused) acts :=
  run_always_iff (playbackInv_start cache) PlaybackInv.playsAsShown
    (fun h ha hs => h.step ha hs) (fun h ha hs => not_playsAsShown_step h ha hs) hrun

/-! ## Two runs -/

/-- The view plays to the end of the range, where it pauses, and plays again from the start. -/
def playedTwice : List (PageAction ℤ) :=
  [.setFrameRange 1, .togglePlaying, .tick 0, .tick 0, .setPlaying true, .tick 1]

/-- Play is started twice.  The pause stops the second interval, and the first goes on. -/
def startedTwice : List (PageAction ℤ) :=
  [.setFrameRange 9, .setPlaying true, .setPlaying true, .setPlaying false, .tick 0]

theorem playedTwice_playsAsShown :
    ∃ s, run pageStep (.start some) playedTwice = some s ∧ PlaysAsShown s :=
  ⟨_, rfl, (@playsAsShown_iff _ some playedTwice _ rfl).mpr (by decide) 6 _ rfl⟩

/-- The paused view has moved on. -/
theorem startedTwice_not_playsAsShown :
    ∃ s, run pageStep (.start some) startedTwice = some s ∧ s.playing = false ∧
      s.intervals = [0] ∧ s.currentFrame = 1 ∧ ¬ PlaysAsShown s :=
  ⟨_, rfl, rfl, rfl, rfl, fun h => absurd h.count (by decide)⟩

/-! ## Left alone -/

/-- Nobody touches the controls: intervals fire, and responses come in. -/
def Unattended : PageAction Data → Bool
  | .tick _ | .success _ _ | .error _ => true
  | _ => false

def isTick : PageAction Data → Bool
  | .tick _ => true
  | _ => false

/-- The `n` frames behind `f`, newest first. -/
def framesAfter (f : ℤ) : ℕ → List ℤ
  | 0 => []
  | n + 1 => (f + n + 1) :: framesAfter f n

/-- A view that played on behind the frame `f`, when it was to move `moves` times. -/
structure PlayedTo (maxFrame f : ℤ) (changes : List ℤ) (moves : ℕ) (s : Page Data) : Prop where
  inv : PlaybackInv s
  range : s.maxFrame = maxFrame
  bound : f + moves ≤ maxFrame + 1
  frame : s.currentFrame = min (f + moves) maxFrame
  shown : s.changes = framesAfter f (min moves (maxFrame - f).toNat) ++ changes
  playing : s.playing = true ↔ f + moves ≤ maxFrame

section Alone

variable {s s' : Page Data} {a : PageAction Data} {maxFrame f : ℤ} {changes : List ℤ} {moves : ℕ}

lemma setCurrentFrame_shows {x : ℤ} (hmax : x ≤ s.maxFrame) (hmin : 0 ≤ x) :
    (setCurrentFrame s x).maxFrame = s.maxFrame ∧
      (setCurrentFrame s x).changes = x :: s.changes := by
  rw [setCurrentFrame, if_neg (by omega), if_neg (by omega), f_mem_status_draw]
  split
  · exact ⟨rfl, rfl⟩
  · exact ⟨rfl, rfl⟩

lemma setCurrentFrame_beyond {x : ℤ} (h : x > s.maxFrame) : setCurrentFrame s x = pause s := by
  rw [setCurrentFrame, if_pos h]

/-- A response moves nothing. -/
lemma PlayedTo.of_eq (h : PlayedTo maxFrame f changes moves s) (hframe : s'.currentFrame
    = s.currentFrame) (hrange : s'.maxFrame = s.maxFrame) (hplaying : s'.playing = s.playing)
    (hintervals : s'.intervals = s.intervals) (htimer : s'.playingTimer = s.playingTimer)
    (hchanges : s'.changes = s.changes) : PlayedTo maxFrame f changes moves s' := by
  refine ⟨h.inv.of_eq (hframe ▸ h.inv.frame) hplaying hintervals htimer, hrange.trans h.range,
    h.bound, hframe.trans h.frame, hchanges.trans h.shown, ?_⟩
  rw [hplaying]
  exact h.playing

/-- **A tick** shows the next frame, and behind the last one it pauses the view. -/
lemma PlayedTo.tick (h : PlayedTo maxFrame f changes moves s) (hplaying : s.playing = true) :
    PlayedTo maxFrame f changes (moves + 1) (setCurrentFrame s (s.currentFrame + 1)) := by
  have hmoves := h.playing.mp hplaying
  have hcurrent : s.currentFrame = f + moves := by
    rw [h.frame]
    omega
  have hzero := h.inv.frame
  by_cases hlast : f + moves = maxFrame
  · rw [setCurrentFrame_beyond (by rw [h.range]; omega)]
    have hall : min (moves + 1) (maxFrame - f).toNat = min moves (maxFrame - f).toNat := by omega
    refine ⟨h.inv.pause, h.range, by omega, ?_, ?_, ?_⟩
    · show s.currentFrame = _
      omega
    · rw [hall]
      exact h.shown
    · show false = true ↔ _
      simp only [Bool.false_eq_true, false_iff]
      omega
  · have hwithin : s.currentFrame + 1 ≤ s.maxFrame := by
      rw [h.range]
      omega
    have hbefore : min moves (maxFrame - f).toNat = moves := by omega
    have hnow : min (moves + 1) (maxFrame - f).toNat = moves + 1 := by omega
    obtain ⟨hframe, hplays, -⟩ := setCurrentFrame_within hwithin (by omega)
    obtain ⟨hrange, hshown⟩ := setCurrentFrame_shows hwithin (by omega)
    refine ⟨h.inv.setCurrentFrame _, hrange.trans h.range, by omega, ?_, ?_, ?_⟩
    · rw [hframe]
      omega
    · rw [hshown, h.shown, hbefore, hnow, hcurrent, framesAfter, List.cons_append]
    · rw [hplays]
      simp only [hplaying, true_iff]
      omega

/-- **One step** of a view that is left alone. -/
lemma PlayedTo.step (h : PlayedTo maxFrame f changes moves s) (ha : Unattended a)
    (hs : pageStep s a = some s') :
    PlayedTo maxFrame f changes (moves + if isTick a then 1 else 0) s' := by
  cases a with
  | tick timer =>
      simp only [pageStep] at hs
      split_ifs at hs with htimer
      cases hs
      have hplaying : s.playing = true := by
        by_contra hpaused
        rw [h.inv.paused (by simpa using hpaused)] at htimer
        simp at htimer
      exact h.tick hplaying
  | success i data =>
      obtain ⟨frame, -, rfl⟩ := Option.map_eq_some_iff.mp hs
      exact h.of_eq rfl rfl rfl rfl rfl rfl
  | error i =>
      obtain ⟨frame, -, rfl⟩ := Option.map_eq_some_iff.mp hs
      exact h.of_eq rfl rfl rfl rfl rfl rfl
  | setCurrentFrame | stepCurrentFrame | setPlaying | togglePlaying | reset | setFrameRange =>
      cases ha

lemma PlayedTo.run (h : PlayedTo maxFrame f changes moves s) {acts : List (PageAction Data)}
    (hacts : ∀ a ∈ acts, Unattended a) (hrun : run pageStep s acts = some s') :
    PlayedTo maxFrame f changes (moves + acts.countP isTick) s' := by
  induction acts using List.reverseRecOn generalizing s' with
  | nil =>
      cases hrun
      exact h
  | append_singleton acts a ih =>
      obtain ⟨s₁, hbefore, hlast⟩ := run_append_eq_some.mp hrun
      have hplayed := ih (fun b hb => hacts b (List.mem_append_left _ hb)) hbefore
      have hstep := hplayed.step (hacts a (by simp)) hlast
      rw [List.countP_append, List.countP_singleton, ← Nat.add_assoc]
      exact hstep

/-- A view that has just been told to play.  At the end of the range it shows the first frame
again. -/
lemma playedTo_setPlaying (h : PlaybackInv s) (hpaused : s.playing = false)
    (hrange : s.currentFrame ≤ s.maxFrame) :
    PlayedTo s.maxFrame (if s.currentFrame = s.maxFrame then -1 else s.currentFrame) s.changes
      (if s.currentFrame = s.maxFrame then 1 else 0) (setPlaying s true) := by
  have hinv := h.setPlaying (v := true) fun _ => hpaused
  have hzero := h.frame
  by_cases hend : s.currentFrame = s.maxFrame
  · rw [if_pos hend, if_pos hend]
    have hplay : setPlaying s true
        = startInterval (setCurrentFrame { s with playing := true } 0) := by
      rw [setPlaying, if_pos rfl, if_pos hend]
    have hmax : (0 : ℤ) ≤ ({ s with playing := true } : Page Data).maxFrame := hend ▸ hzero
    obtain ⟨hframe, hplays, -⟩ := setCurrentFrame_within hmax (Int.le_refl 0)
    obtain ⟨hrange', hshown⟩ := setCurrentFrame_shows hmax (Int.le_refl 0)
    rw [hplay] at hinv ⊢
    have hone : min 1 (s.maxFrame - -1).toNat = 1 := by omega
    refine ⟨hinv, hrange', by omega, ?_, ?_, ?_⟩
    · refine hframe.trans ?_
      omega
    · rw [hone]
      exact hshown
    · refine (iff_of_true hplays ?_)
      omega
  · rw [if_neg hend, if_neg hend]
    have hplay : setPlaying s true = startInterval { s with playing := true } := by
      rw [setPlaying, if_pos rfl, if_neg hend]
    rw [hplay] at hinv ⊢
    refine ⟨hinv, rfl, by omega, ?_, ?_, iff_of_true rfl (by omega)⟩
    · show s.currentFrame = _
      omega
    · rw [Nat.zero_min]
      rfl

/-- **Play, and leave it alone.**  From a paused view the frames behind the current one are shown,
one for each tick, each once and in their order; from the last frame it starts over.  The view goes
on as long as there is a frame left, and with the next tick behind the last frame it pauses. -/
theorem play_shows {cache : ℤ → Option Data} {before acts : List (PageAction Data)}
    (hbefore : run pageStep (.start cache) before = some s)
    (hmeet : StepsMeet pageStep (.start cache) (fun _ => StartsPaused) before)
    (hpaused : s.playing = false) (hrange : s.currentFrame ≤ s.maxFrame)
    (hacts : ∀ a ∈ acts, Unattended a)
    (hrun : run pageStep s (.setPlaying true :: acts) = some s') :
    PlayedTo s.maxFrame (if s.currentFrame = s.maxFrame then -1 else s.currentFrame) s.changes
        ((if s.currentFrame = s.maxFrame then 1 else 0) + acts.countP isTick) s' ∧
      (s'.playing = true → ∃ timer, pageStep s' (.tick timer) ≠ none) ∧
      (s'.playing = false → ∀ timer, pageStep s' (.tick timer) = none) := by
  have hinv : PlaybackInv s := @run_invariant _ _ pageStep _ _ (fun _ s => PlaybackInv s)
    (playbackInv_start cache) (fun _ h ha hs => PlaybackInv.step h ha hs) before s hmeet hbefore
  rw [run_cons] at hrun
  have hplayed := (playedTo_setPlaying hinv hpaused hrange).run hacts hrun
  refine ⟨hplayed, fun hplays => ?_, fun hstops timer => ?_⟩
  · obtain ⟨timer, hone, -⟩ := hplayed.inv.playing hplays
    exact ⟨timer, tick_ne_none.mpr (by simp [hone])⟩
  · exact hplayed.inv.playsAsShown.still hstops timer

end Alone

/-- The range of a view of four frames, and its third frame. -/
def thirdFrame : List (PageAction ℤ) := [.setFrameRange 3, .setCurrentFrame 2]

/-- It plays, a response comes in, and it pauses behind the fourth frame. -/
theorem thirdFrame_shows : ∃ s s', run pageStep (.start fun _ => none) thirdFrame = some s ∧
    run pageStep s (.setPlaying true :: [.tick 0, .success 0 7, .tick 0]) = some s' ∧
    PlayedTo 3 2 [2] 2 s' ∧
    (s'.playing = true → ∃ timer, pageStep s' (.tick timer) ≠ none) ∧
    (s'.playing = false → ∀ timer, pageStep s' (.tick timer) = none) := by
  refine ⟨_, _, rfl, rfl, ?_⟩
  exact @play_shows ℤ _ _ (fun _ => none) thirdFrame [.tick 0, .success 0 7, .tick 0] rfl
    (by decide) rfl (by decide) (by decide) rfl

end PerVERT
