import PerVERT.Frontend.PageRequest

/-!
# Where a request ends

A worker reads from the connection until the buffer holds an empty line, and looks for one anew
after every piece that arrives.  How the client's bytes are cut into pieces is up to the network.

* `get_request_len`, `read_request`, `process_new_connection` — the code; `recv` gives at most as
  many bytes as its step of the schedule allows.
* `HeaderEnd` — where the first empty line ends; **`get_request_len_of_headerEnd`**,
  `get_request_len_of_none` — what the loop finds.  A character that no request may contain counts
  only as long as there is no empty line: the loop goes on behind it, and forgets it.
* `bufferLengths` — how much the buffer holds after each read; **`read_request_eq`** — the first of
  these lengths at which the loop finds anything decides.
* **`connection_outcome`** — what becomes of a connection, for any bytes and any pieces;
  **`pageCall_framed`** — the requests of the page are handled however they arrive.
-/

namespace PerVERT

/-! ## The code -/

/-- The control characters that no request may contain. -/
def refused (c : Char) : Bool :=
  (c.toNat < 0x20 ∨ c.toNat = 0x7F) ∧ c ≠ '\r' ∧ c ≠ '\n'

/-- The loop of `get_request_len` at place `pos`, with the value of `len`. -/
def requestLenLoop (len : ℤ) (pos : ℕ) : Text → ℤ
  | s0 :: s1 :: rest =>
      if 0 < len then len
      else if refused s0 then requestLenLoop (-1) (pos + 1) (s1 :: rest)
      else if s0 = '\n' ∧ s1 = '\n' then requestLenLoop (pos + 2) (pos + 1) (s1 :: rest)
      else if s0 = '\n' ∧ s1 = '\r' ∧ rest.head? = some '\n' then
        requestLenLoop (pos + 3) (pos + 1) (s1 :: rest)
      else requestLenLoop len (pos + 1) (s1 :: rest)
  | _ => len

/-- `get_request_len`. -/
def get_request_len (buf : Text) : ℤ := requestLenLoop 0 0 buf

/-- `read_request`, when `recv` returns at most as many bytes as the schedule says, and nothing at
its end: the length of the request, and what the buffer holds. -/
def read_request (bufsiz : ℕ) : List ℕ → Text → Text → ℤ × Text
  | [], _, buf => (0, buf)
  | n :: schedule, sent, buf =>
      if buf.length < bufsiz then
        let got := sent.take (min n (bufsiz - buf.length))
        if got = [] then (0, buf)
        else
          let request_len := get_request_len (buf ++ got)
          if request_len = 0 then
            read_request bufsiz schedule (sent.drop got.length) (buf ++ got)
          else (request_len, buf ++ got)
      else (0, buf)

/-- What becomes of a connection. -/
inductive Outcome
  /-- Error 413. -/
  | tooLarge
  /-- It is closed without an answer. -/
  | closed
  /-- Error 400. -/
  | badRequest
  /-- Error 505. -/
  | badVersion
  /-- `handle_request`. -/
  | handle (r : RawRequest)
  deriving DecidableEq, Repr

/-- What follows once the request is there. -/
def answerRequest (remote_ip : UInt32) (text : Text) : Outcome :=
  match parse_http_request remote_ip text with
  | none => .badRequest
  | some r =>
      if !is_valid_uri r.uri then .badRequest
      else if ["1.0".toList, "1.1".toList].contains r.http_version then .handle r
      else .badVersion

/-- `process_new_connection`.  With `enable_keep_alive` set to `no` there is one request. -/
def process_new_connection (bufsiz : ℕ) (remote_ip : UInt32) (schedule : List ℕ) (sent : Text) :
    Outcome :=
  let (request_len, buf) := read_request bufsiz schedule sent []
  if request_len = 0 ∧ buf.length = bufsiz then .tooLarge
  else if request_len ≤ 0 then .closed
  else answerRequest remote_ip (buf.take (request_len.toNat - 1))

/-! ## The end of the header -/

/-- The text ends in an empty line. -/
def EndsEmpty (text : Text) : Prop := "\n\n".toList <:+ text ∨ "\n\r\n".toList <:+ text

/-- The first empty line ends at place `n`. -/
structure HeaderEnd (buf : Text) (n : ℕ) : Prop where
  le_length : n ≤ buf.length
  ends : EndsEmpty (buf.take n)
  first : ∀ m < n, ¬ EndsEmpty (buf.take m)

section Header

variable {buf text rest : Text} {s0 s1 : Char} {n : ℕ}

lemma endsEmpty_iff : EndsEmpty text ↔ ['\n', '\n'] <:+ text ∨ ['\n', '\r', '\n'] <:+ text :=
  Iff.rfl

lemma EndsEmpty.two_le (h : EndsEmpty text) : 2 ≤ text.length := by
  rcases endsEmpty_iff.mp h with h | h
  · exact h.length_le
  · exact le_trans (by decide) h.length_le

/-- An empty line that does not begin at once ends where it does behind the first character. -/
lemma endsEmpty_cons_take (h2 : ¬ (s0 = '\n' ∧ s1 = '\n'))
    (h3 : ¬ (s0 = '\n' ∧ s1 = '\r' ∧ rest.head? = some '\n')) (n : ℕ) :
    EndsEmpty ((s0 :: s1 :: rest).take (n + 1)) ↔ EndsEmpty ((s1 :: rest).take n) := by
  rw [List.take_succ_cons, endsEmpty_iff, endsEmpty_iff, List.suffix_cons_iff,
    List.suffix_cons_iff]
  have hno2 : ['\n', '\n'] ≠ s0 :: (s1 :: rest).take n := by
    intro heq
    obtain ⟨rfl, htake⟩ := List.cons.inj heq
    cases n with
    | zero => simp at htake
    | succ n =>
        rw [List.take_succ_cons] at htake
        exact h2 ⟨rfl, (List.cons.inj htake).1.symm⟩
  have hno3 : ['\n', '\r', '\n'] ≠ s0 :: (s1 :: rest).take n := by
    intro heq
    obtain ⟨rfl, htake⟩ := List.cons.inj heq
    cases n with
    | zero => simp at htake
    | succ n =>
        rw [List.take_succ_cons] at htake
        obtain ⟨rfl, hlast⟩ := List.cons.inj htake
        have hhead : rest.head? = some '\n' := by
          cases rest with
          | nil => simp at hlast
          | cons x rest =>
              cases n with
              | zero => simp at hlast
              | succ n => exact congrArg some (List.cons.inj hlast).1.symm
        exact h3 ⟨rfl, rfl, hhead⟩
  simp only [hno2, hno3, false_or]

lemma HeaderEnd.pos (h : HeaderEnd buf n) : 2 ≤ n := by
  have hlength := h.ends.two_le
  rw [List.length_take] at hlength
  omega

lemma HeaderEnd.unique {m : ℕ} (h : HeaderEnd buf n) (h' : HeaderEnd buf m) : n = m := by
  rcases Nat.lt_trichotomy n m with hlt | rfl | hlt
  · exact absurd h.ends (h'.first n hlt)
  · rfl
  · exact absurd h'.ends (h.first m hlt)

lemma headerEnd_cons (h2 : ¬ (s0 = '\n' ∧ s1 = '\n'))
    (h3 : ¬ (s0 = '\n' ∧ s1 = '\r' ∧ rest.head? = some '\n')) :
    HeaderEnd (s0 :: s1 :: rest) (n + 1) ↔ HeaderEnd (s1 :: rest) n := by
  have hends := endsEmpty_cons_take h2 h3
  constructor
  · rintro ⟨hle, hend, hfirst⟩
    refine ⟨Nat.le_of_succ_le_succ hle, (hends n).mp hend, fun m hm hend' => ?_⟩
    exact hfirst (m + 1) (Nat.succ_lt_succ hm) ((hends m).mpr hend')
  · rintro ⟨hle, hend, hfirst⟩
    refine ⟨Nat.succ_le_succ hle, (hends n).mpr hend, fun m hm hend' => ?_⟩
    cases m with
    | zero => exact absurd hend'.two_le (by simp)
    | succ m => exact hfirst m (Nat.lt_of_succ_lt_succ hm) ((hends m).mp hend')

lemma headerEnd_two : HeaderEnd ('\n' :: '\n' :: rest) 2 := by
  constructor
  · simp
  · exact Or.inl (List.suffix_refl _)
  · intro m hm h
    have htwo := h.two_le
    rw [List.length_take] at htwo
    omega

lemma headerEnd_three : HeaderEnd ('\n' :: '\r' :: '\n' :: rest) 3 := by
  constructor
  · simp
  · exact Or.inr (List.suffix_refl _)
  · intro m hm h
    have htwo := h.two_le
    rw [List.length_take] at htwo
    obtain rfl : m = 2 := by omega
    have hnot : ¬ (['\n', '\n'] <:+ ['\n', '\r'] ∨ ['\n', '\r', '\n'] <:+ ['\n', '\r']) := by decide
    exact hnot h

/-- A length that was found ends the loop. -/
lemma requestLenLoop_of_pos {len : ℤ} (h : 0 < len) (pos : ℕ) (buf : Text) :
    requestLenLoop len pos buf = len := by
  rw [requestLenLoop.eq_def]
  split
  · rw [if_pos h]
  · rfl

lemma refused_ne_newline (h : refused s0 = true) : s0 ≠ '\n' := by
  rintro rfl
  revert h
  decide

/-- What the loop finds: the end of the first empty line, and without one whether something refused
stands before the last character. -/
lemma requestLenLoop_spec : ∀ (len : ℤ) (pos : ℕ) (buf : Text), len ≤ 0 →
    (∀ n, HeaderEnd buf n → requestLenLoop len pos buf = pos + n) ∧
      ((∀ n, ¬ HeaderEnd buf n) →
        requestLenLoop len pos buf = if buf.dropLast.any refused then -1 else len)
  | len, pos, s0 :: s1 :: rest, hlen => by
      rw [requestLenLoop, if_neg (by omega)]
      by_cases h2 : s0 = '\n' ∧ s1 = '\n'
      · obtain ⟨rfl, rfl⟩ := h2
        have hhere : HeaderEnd ('\n' :: '\n' :: rest) 2 := headerEnd_two
        refine ⟨fun n h => ?_, fun hnone => absurd hhere (hnone 2)⟩
        rw [h.unique hhere, if_neg (by decide), if_pos ⟨rfl, rfl⟩,
          requestLenLoop_of_pos (by omega)]
        rfl
      by_cases h3 : s0 = '\n' ∧ s1 = '\r' ∧ rest.head? = some '\n'
      · have hhere : HeaderEnd (s0 :: s1 :: rest) 3 := by
          obtain ⟨rfl, rfl, hhead⟩ := h3
          obtain ⟨rest, rfl⟩ := List.head?_eq_some_iff.mp hhead
          exact headerEnd_three
        have hallowed : ¬ refused s0 = true := fun hrefused => refused_ne_newline hrefused h3.1
        refine ⟨fun n h => ?_, fun hnone => absurd hhere (hnone 3)⟩
        rw [h.unique hhere, if_neg hallowed, if_neg h2, if_pos h3,
          requestLenLoop_of_pos (by omega)]
        rfl
      · rw [if_neg h2, if_neg h3]
        have hcons := fun n => @headerEnd_cons rest s0 s1 n h2 h3
        -- the loop goes on, whether the character is refused or not
        have hgoes : ∀ len' : ℤ, len' ≤ 0 →
            (∀ n, HeaderEnd (s0 :: s1 :: rest) n →
              requestLenLoop len' (pos + 1) (s1 :: rest) = pos + n) ∧
            ((∀ n, ¬ HeaderEnd (s0 :: s1 :: rest) n) →
              requestLenLoop len' (pos + 1) (s1 :: rest)
                = if (s1 :: rest).dropLast.any refused then -1 else len') := by
          intro len' hlen'
          have hspec := requestLenLoop_spec len' (pos + 1) (s1 :: rest) hlen'
          refine ⟨fun n h => ?_, fun hnone => hspec.2 fun n h => hnone (n + 1) ((hcons n).mpr h)⟩
          have hpos := h.pos
          obtain ⟨n, rfl⟩ : ∃ k, n = k + 1 := ⟨n - 1, by omega⟩
          rw [hspec.1 n ((hcons n).mp h)]
          push_cast
          omega
        rw [List.dropLast_cons_cons, List.any_cons]
        cases hrefused : refused s0 with
        | true =>
            obtain ⟨hfound, hnone⟩ := hgoes (-1) (by decide)
            refine ⟨hfound, fun h => ?_⟩
            rw [if_pos rfl, hnone h]
            simp
        | false =>
            rw [if_neg (by simp)]
            exact hgoes len hlen
  | len, pos, [], _ => by
      refine ⟨fun n h => absurd (le_trans h.pos h.le_length) (by simp), fun _ => rfl⟩
  | len, pos, [c], _ => by
      refine ⟨fun n h => absurd (le_trans h.pos h.le_length) (by simp), fun _ => rfl⟩

/-- **The length of a request** is where the first empty line ends, whatever stands before. -/
lemma get_request_len_of_headerEnd (h : HeaderEnd buf n) : get_request_len buf = n := by
  rw [get_request_len, (requestLenLoop_spec 0 0 buf (le_refl 0)).1 n h]
  omega

/-- Where there is none, the last character has not been looked at. -/
lemma get_request_len_of_none (h : ∀ n, ¬ HeaderEnd buf n) :
    get_request_len buf = if buf.dropLast.any refused then -1 else 0 :=
  (requestLenLoop_spec 0 0 buf (le_refl 0)).2 h

lemma headerEnd_of_get_request_len (h : get_request_len buf = n) (hpos : 0 < n) :
    HeaderEnd buf n := by
  by_cases hend : ∃ m, HeaderEnd buf m
  · obtain ⟨m, hm⟩ := hend
    rw [get_request_len_of_headerEnd hm] at h
    obtain rfl : m = n := by omega
    exact hm
  · rw [get_request_len_of_none fun m hm => hend ⟨m, hm⟩] at h
    split_ifs at h
    omega

/-- The end of the header in what has arrived. -/
lemma headerEnd_take_iff {c : ℕ} : HeaderEnd (buf.take c) n ↔ n ≤ c ∧ HeaderEnd buf n := by
  have htake : ∀ m ≤ n, n ≤ c → (buf.take c).take m = buf.take m := fun m hm hn => by
    rw [List.take_take, Nat.min_eq_left (le_trans hm hn)]
  constructor
  · rintro ⟨hle, hend, hfirst⟩
    rw [List.length_take] at hle
    have hn : n ≤ c := by omega
    rw [htake n (le_refl n) hn] at hend
    exact ⟨hn, by omega, hend, fun m hm => htake m (Nat.le_of_lt hm) hn ▸ hfirst m hm⟩
  · rintro ⟨hn, hle, hend, hfirst⟩
    refine ⟨?_, ?_, fun m hm => ?_⟩
    · rw [List.length_take]
      omega
    · rwa [htake n (le_refl n) hn]
    · rw [htake m (Nat.le_of_lt hm) hn]
      exact hfirst m hm

/-! ## Pieces -/

/-- How much the buffer holds after each read, if there is room for `limit` bytes or no more are
sent. -/
def bufferLengths (limit : ℕ) : ℕ → List ℕ → List ℕ
  | _, [] => []
  | held, n :: schedule =>
      let now := min (held + n) limit
      now :: bufferLengths limit now schedule

/-- All that is sent arrives, and the connection stays open until then. -/
structure Arrives (schedule : List ℕ) (sent : Text) : Prop where
  pos : ∀ k ∈ schedule, 0 < k
  all : sent.length ≤ schedule.sum

lemma mem_bufferLengths {limit held c : ℕ} {schedule : List ℕ} (hheld : held ≤ limit)
    (h : c ∈ bufferLengths limit held schedule) : held ≤ c ∧ c ≤ limit := by
  induction schedule generalizing held with
  | nil => simp [bufferLengths] at h
  | cons k schedule ih =>
      rcases List.mem_cons.mp h with rfl | h
      · omega
      · have hrest := ih (by omega) h
        omega

/-- The buffer only grows, -/
lemma bufferLengths_ascending {limit held : ℕ} {schedule : List ℕ} :
    (bufferLengths limit held schedule).Pairwise (· ≤ ·) := by
  induction schedule generalizing held with
  | nil => exact List.Pairwise.nil
  | cons k schedule ih =>
      exact List.pairwise_cons.mpr ⟨fun c hc => (mem_bufferLengths (by omega) hc).1, ih⟩

/-- until it holds all that it will. -/
lemma limit_mem_bufferLengths {limit held : ℕ} {schedule : List ℕ} (hheld : held < limit)
    (h : limit ≤ held + schedule.sum) : limit ∈ bufferLengths limit held schedule := by
  induction schedule generalizing held with
  | nil => simp at h; omega
  | cons k schedule ih =>
      rw [List.sum_cons] at h
      by_cases hall : limit ≤ held + k
      · exact List.mem_cons.mpr (Or.inl (by omega))
      · refine List.mem_cons_of_mem _ ?_
        rw [Nat.min_eq_left (by omega)]
        exact ih (by omega) (by omega)

end Header

/-- What `read_request` is left with: the first length of the buffer at which the loop finds
anything decides, and without one all that could be read is there. -/
def firstFound (sent : Text) (limit : ℕ) (lengths : List ℕ) : ℤ × Text :=
  match lengths.find? fun c => get_request_len (sent.take c) ≠ 0 with
  | some c => (get_request_len (sent.take c), sent.take c)
  | none => (0, sent.take limit)

section Pieces

variable {sent : Text} {bufsiz n : ℕ} {schedule : List ℕ}

/-- Nothing is found in a buffer that does not grow. -/
lemma firstFound_full {held : ℕ} (hzero : get_request_len (sent.take held) = 0) :
    firstFound sent held (bufferLengths held held schedule) = (0, sent.take held) := by
  have hnone : (bufferLengths held held schedule).find?
      (fun c => get_request_len (sent.take c) ≠ 0) = none := by
    rw [List.find?_eq_none]
    intro c hc
    obtain ⟨hle, hge⟩ := mem_bufferLengths (le_refl held) hc
    obtain rfl : c = held := by omega
    simp [hzero]
  rw [firstFound, hnone]

/-- **One read**, when the buffer holds the first `held` bytes and has room: it then holds those up
to `now`. -/
lemma read_request_cons {k held now : ℕ} (hroom : held < bufsiz) (hheld : held ≤ sent.length)
    (hnow : now = min (held + k) (min bufsiz sent.length)) :
    read_request bufsiz (k :: schedule) (sent.drop held) (sent.take held)
      = if now = held then (0, sent.take held)
        else if get_request_len (sent.take now) = 0 then
          read_request bufsiz schedule (sent.drop now) (sent.take now)
        else (get_request_len (sent.take now), sent.take now) := by
  have hlength : (sent.take held).length = held := by
    rw [List.length_take]
    omega
  have hgot : (sent.drop held).take (min k (bufsiz - held))
      = (sent.drop held).take (now - held) := by
    rw [List.take_eq_take_iff, List.length_drop]
    omega
  have hgotlength : ((sent.drop held).take (now - held)).length = now - held := by
    rw [List.length_take, List.length_drop]
    omega
  have hnothing : (sent.drop held).take (now - held) = [] ↔ now = held := by
    rw [← List.length_eq_zero_iff, hgotlength]
    omega
  have hbuf : sent.take held ++ (sent.drop held).take (now - held) = sent.take now := by
    rw [← List.take_add, Nat.add_sub_cancel' (by omega)]
  have hdrop : (sent.drop held).drop (now - held) = sent.drop now := by
    rw [List.drop_drop, Nat.add_sub_cancel' (by omega)]
  rw [read_request, hlength, if_pos hroom, hgot]
  simp only [hgotlength, hbuf, hdrop, hnothing]

/-- **The pieces**: only the lengths of the buffer matter. -/
lemma read_request_eq : ∀ {schedule : List ℕ} {held : ℕ}, held ≤ min bufsiz sent.length →
    get_request_len (sent.take held) = 0 →
    held = bufsiz ∨ Arrives schedule (sent.drop held) →
    read_request bufsiz schedule (sent.drop held) (sent.take held)
      = firstFound sent (min bufsiz sent.length)
          (bufferLengths (min bufsiz sent.length) held schedule) := by
  intro schedule
  induction schedule with
  | nil =>
      intro held hheld hzero h
      have hall : held = min bufsiz sent.length := by
        rcases h with rfl | harrives
        · omega
        · have hrest := harrives.all
          rw [List.length_drop, List.sum_nil] at hrest
          omega
      rw [← hall, firstFound_full hzero, read_request]
  | cons k schedule ih =>
      intro held hheld hzero h
      by_cases hroom : held < bufsiz
      · obtain ⟨hpos, hrest⟩ := h.resolve_left (Nat.ne_of_lt hroom)
        have hk := hpos k List.mem_cons_self
        rw [List.length_drop, List.sum_cons] at hrest
        obtain ⟨now, hnow⟩ : ∃ now, now = min (held + k) (min bufsiz sent.length) := ⟨_, rfl⟩
        rw [read_request_cons hroom (by omega) hnow]
        by_cases hnothing : now = held
        · have hall : held = min bufsiz sent.length := by omega
          rw [if_pos hnothing, ← hall, firstFound_full hzero]
        · rw [if_neg hnothing]
          by_cases hfound : get_request_len (sent.take now) = 0
          · have hnext : now = bufsiz ∨ Arrives schedule (sent.drop now) := by
              by_cases hfull : now = bufsiz
              · exact Or.inl hfull
              · refine Or.inr ⟨fun k' hk' => hpos k' (List.mem_cons_of_mem _ hk'), ?_⟩
                rw [List.length_drop]
                omega
            rw [if_pos hfound, ih (by omega) hfound hnext]
            simp only [firstFound, bufferLengths, ← hnow]
            rw [List.find?_cons_of_neg (by simp [hfound])]
          · rw [if_neg hfound]
            simp only [firstFound, bufferLengths, ← hnow]
            rw [List.find?_cons_of_pos (by simp [hfound])]
      · have hlength : (sent.take held).length = held := by
          rw [List.length_take]
          omega
        have hall : held = min bufsiz sent.length := by omega
        rw [read_request, hlength, if_neg hroom, ← hall, firstFound_full hzero]

/-- What the loop finds in the first bytes of a request whose header ends at place `n`. -/
lemma get_request_len_take (hend : HeaderEnd sent n) (c : ℕ) :
    get_request_len (sent.take c)
      = if n ≤ c then (n : ℤ) else if (sent.take c).dropLast.any refused then -1 else 0 := by
  split_ifs with hc hrefused
  · exact get_request_len_of_headerEnd (headerEnd_take_iff.mpr ⟨hc, hend⟩)
  all_goals
    have hnone : ∀ m, ¬ HeaderEnd (sent.take c) m := by
      intro m hm
      obtain ⟨hmc, hm⟩ := headerEnd_take_iff.mp hm
      exact hc (hm.unique hend ▸ hmc)
    rw [get_request_len_of_none hnone]
  · rw [if_pos hrefused]
  · rw [if_neg hrefused]

/-- A read ended before the header did, and behind a character that was refused. -/
def CutShort (sent : Text) (n : ℕ) (lengths : List ℕ) : Bool :=
  lengths.any fun c => c < n ∧ (sent.take c).dropLast.any refused

/-- The first length of the buffer at which the loop finds anything, when the header ends. -/
lemma exists_firstFound (hend : HeaderEnd sent n) {limit : ℕ} {lengths : List ℕ}
    (hascending : lengths.Pairwise (· ≤ ·)) (hlimit : limit ∈ lengths) (hn : n ≤ limit) :
    ∃ c, firstFound sent limit lengths = (get_request_len (sent.take c), sent.take c) ∧
      (CutShort sent n lengths = true → get_request_len (sent.take c) = -1) ∧
      (CutShort sent n lengths = false → n ≤ c) := by
  have htake := get_request_len_take hend
  have hpos := hend.pos
  obtain ⟨c, hc⟩ : ∃ c, lengths.find? (fun c => get_request_len (sent.take c) ≠ 0) = some c := by
    rw [← Option.isSome_iff_exists, List.find?_isSome]
    refine ⟨limit, hlimit, ?_⟩
    rw [htake, if_pos hn, decide_eq_true_eq]
    omega
  obtain ⟨hfound, before, after, rfl, hbefore⟩ := List.find?_eq_some_iff_append.mp hc
  rw [decide_eq_true_eq, htake] at hfound
  refine ⟨c, by rw [firstFound, hc], fun hcut => ?_, fun hwhole => ?_⟩
  · obtain ⟨d, hd, hshort⟩ := List.any_eq_true.mp hcut
    obtain ⟨hlt, hrefused⟩ := of_decide_eq_true hshort
    have hmem : d ∈ c :: after := by
      refine (List.mem_append.mp hd).resolve_left fun hmem => ?_
      have hzero := hbefore d hmem
      rw [htake, if_neg (Nat.not_le.mpr hlt), if_pos hrefused] at hzero
      simp at hzero
    -- the buffer only grows, so it was found no later than there
    have hle : c ≤ d := by
      rcases List.mem_cons.mp hmem with rfl | hmem
      · exact le_refl _
      · exact List.rel_of_pairwise_cons (List.pairwise_append.mp hascending).2.1 hmem
    rw [if_neg (by omega)] at hfound
    rw [htake, if_neg (by omega)]
    split_ifs at hfound ⊢
    · rfl
    · exact absurd rfl hfound
  · by_contra hlt
    rw [if_neg hlt] at hfound
    have hnot := List.any_eq_false.mp hwhole c (by simp)
    simp only [decide_eq_true_eq, not_and] at hnot
    rw [if_neg (hnot (Nat.not_le.mp hlt))] at hfound
    exact hfound rfl

/-- What was refused in a part of the buffer is refused in more of it. -/
lemma any_refused_take {c d : ℕ} (hcd : c ≤ d) (h : (sent.take c).dropLast.any refused = true) :
    (sent.take d).dropLast.any refused = true := by
  obtain ⟨x, hx, hrefused⟩ := List.any_eq_true.mp h
  refine List.any_eq_true.mpr ⟨x, ?_, hrefused⟩
  have hinit : ∀ k, (sent.take k).dropLast = sent.take (min k sent.length - 1) := by
    intro k
    rw [List.dropLast_eq_take, List.length_take, List.take_take, Nat.min_eq_left (by omega)]
  rw [hinit] at hx ⊢
  exact (List.take_sublist_take_left (by omega)).subset hx

/-- The first length of the buffer at which the loop finds anything, when no header ends. -/
lemma firstFound_of_none {limit : ℕ} {lengths : List ℕ}
    (hnone : ∀ c ≤ limit, ∀ m, ¬ HeaderEnd (sent.take c) m) (hle : ∀ c ∈ lengths, c ≤ limit)
    (hlimit : 0 < limit → limit ∈ lengths) :
    ((sent.take limit).dropLast.any refused = true →
        (firstFound sent limit lengths).1 = -1) ∧
      ((sent.take limit).dropLast.any refused = false →
        firstFound sent limit lengths = (0, sent.take limit)) := by
  have hlen := fun c hc => get_request_len_of_none (hnone c hc)
  constructor
  · intro hrefused
    have hpos : 0 < limit := by
      refine Nat.pos_of_ne_zero ?_
      rintro rfl
      simp at hrefused
    obtain ⟨c, hc⟩ : ∃ c, lengths.find? (fun c => get_request_len (sent.take c) ≠ 0) = some c := by
      rw [← Option.isSome_iff_exists, List.find?_isSome]
      refine ⟨limit, hlimit hpos, ?_⟩
      rw [hlen limit (le_refl limit), if_pos hrefused]
      decide
    have hfound := List.find?_some hc
    rw [decide_eq_true_eq, hlen c (hle c (List.mem_of_find?_eq_some hc))] at hfound
    rw [firstFound, hc]
    simp only
    rw [hlen c (hle c (List.mem_of_find?_eq_some hc))]
    split_ifs at hfound ⊢
    · rfl
    · exact absurd rfl hfound
  · intro hallowed
    have hnothing : lengths.find? (fun c => get_request_len (sent.take c) ≠ 0) = none := by
      rw [List.find?_eq_none]
      intro c hc
      have hnot : ¬ (sent.take c).dropLast.any refused = true := fun hrefused => by
        rw [any_refused_take (hle c hc) hrefused] at hallowed
        cases hallowed
      rw [hlen c (hle c hc), if_neg hnot]
      decide
    rw [firstFound, hnothing]

/-- All that is sent is read, as long as there is room. -/
lemma read_request_arrives (harrives : Arrives schedule sent) :
    read_request bufsiz schedule sent [] = firstFound sent (min bufsiz sent.length)
      (bufferLengths (min bufsiz sent.length) 0 schedule) :=
  @read_request_eq sent bufsiz schedule 0 (Nat.zero_le _) rfl (Or.inr harrives)

lemma Arrives.limit_mem (harrives : Arrives schedule sent) (hpos : 0 < min bufsiz sent.length) :
    min bufsiz sent.length ∈ bufferLengths (min bufsiz sent.length) 0 schedule := by
  have hall := harrives.all
  exact limit_mem_bufferLengths hpos (by omega)

/-- **A request whose header ends** within the buffer. -/
lemma process_of_headerEnd (harrives : Arrives schedule sent) (remote_ip : UInt32)
    (hn : n ≤ bufsiz) (hend : HeaderEnd sent n) :
    process_new_connection bufsiz remote_ip schedule sent
      = if CutShort sent n (bufferLengths (min bufsiz sent.length) 0 schedule) then .closed
        else answerRequest remote_ip (sent.take (n - 1)) := by
  have hpos := hend.pos
  have hle := hend.le_length
  obtain ⟨c, hfirst, hcut, hwhole⟩ := exists_firstFound hend bufferLengths_ascending
    (@Arrives.limit_mem sent bufsiz schedule harrives (by omega)) (by omega)
  rw [process_new_connection, read_request_arrives harrives, hfirst]
  simp only
  cases hshort : CutShort sent n (bufferLengths (min bufsiz sent.length) 0 schedule) with
  | true =>
      rw [hcut hshort, if_neg (by simp), if_pos (by decide)]
      rfl
  | false =>
      have hc := hwhole hshort
      rw [get_request_len_take hend, if_pos hc, if_neg (by omega), if_neg (by omega),
        Int.toNat_natCast, List.take_take, Nat.min_eq_left (by omega)]
      rfl

/-- **No header ends** within the buffer. -/
lemma process_of_none (harrives : Arrives schedule sent) (remote_ip : UInt32)
    (hnone : ∀ n ≤ bufsiz, ¬ HeaderEnd sent n) :
    process_new_connection bufsiz remote_ip schedule sent
      = if bufsiz ≤ sent.length ∧ (sent.take bufsiz).dropLast.any refused = false
        then .tooLarge else .closed := by
  obtain ⟨hrefused, hallowed⟩ := @firstFound_of_none sent (min bufsiz sent.length)
    (bufferLengths (min bufsiz sent.length) 0 schedule)
    (fun c hc m hm => by
      obtain ⟨hmc, hm⟩ := headerEnd_take_iff.mp hm
      exact hnone m (by omega) hm)
    (fun c hc => (mem_bufferLengths (Nat.zero_le _) hc).2)
    harrives.limit_mem
  have hseen : sent.take (min bufsiz sent.length) = sent.take bufsiz := by
    rw [List.take_eq_take_iff]
    omega
  rw [hseen] at hrefused hallowed
  rw [process_new_connection, read_request_arrives harrives]
  cases hany : (sent.take bufsiz).dropLast.any refused with
  | true =>
      simp [hrefused hany]
  | false =>
      rw [hallowed hany]
      simp only [List.length_take]
      by_cases hfull : bufsiz ≤ sent.length
      · simp [hfull]
      · simp [hfull, Nat.le_of_not_le hfull, Nat.ne_of_lt (Nat.lt_of_not_le hfull)]

/-- **What becomes of a connection**, for any bytes and any pieces.  If the first empty line ends
within the buffer, what stands before it is handled, unless a read ended before the empty line did
and left a refused character in the buffer, not as the last one: then the connection is closed
without an answer.  If there is no empty line within the buffer the connection is closed, with error
413 where the buffer is full and nothing was refused.  So where no character before the empty line
is refused, the pieces do not matter at all. -/
theorem connection_outcome (harrives : Arrives schedule sent) (remote_ip : UInt32) :
    (∀ n ≤ bufsiz, HeaderEnd sent n →
      process_new_connection bufsiz remote_ip schedule sent
        = if CutShort sent n (bufferLengths (min bufsiz sent.length) 0 schedule) then .closed
          else answerRequest remote_ip (sent.take (n - 1))) ∧
    ((∀ n ≤ bufsiz, ¬ HeaderEnd sent n) →
      process_new_connection bufsiz remote_ip schedule sent
        = if bufsiz ≤ sent.length ∧ (sent.take bufsiz).dropLast.any refused = false
          then .tooLarge else .closed) :=
  ⟨fun _ hn hend => process_of_headerEnd harrives remote_ip hn hend,
    process_of_none harrives remote_ip⟩

end Pieces

/-- A request that arrives in two pieces. -/
theorem twoPieces_outcome :
    (process_new_connection 100 0 [3, 40] "GET / HTTP/1.1\r\n\r\nGET".toList
      = answerRequest 0 ("GET / HTTP/1.1\r\n\r\nGET".toList.take 17)) ∧
    (process_new_connection 100 0 [1, 1, 8] "\x01\t\n\n".toList = .closed) := by
  have h18 : HeaderEnd "GET / HTTP/1.1\r\n\r\nGET".toList 18 :=
    headerEnd_of_get_request_len (by decide +kernel) (by decide)
  have h4 : HeaderEnd "\x01\t\n\n".toList 4 :=
    headerEnd_of_get_request_len (by decide +kernel) (by decide)
  exact ⟨(connection_outcome ⟨by decide, by decide⟩ 0).1 18 (by decide) h18,
    (connection_outcome ⟨by decide, by decide⟩ 0).1 4 (by decide) h4⟩

/-! ## The requests of the page -/

section Page

variable {c : PageCall} {exec headers : Text} {bufsiz n : ℕ} {schedule : List ℕ}

lemma EndsEmpty.newline_mem {text : Text} (h : EndsEmpty text) : '\n' ∈ text.dropLast := by
  rcases endsEmpty_iff.mp h with ⟨before, rfl⟩ | ⟨before, rfl⟩
  · rw [List.dropLast_append_of_ne_nil (by simp)]
    exact List.mem_append_right _ (by decide)
  · rw [List.dropLast_append_of_ne_nil (by simp)]
    exact List.mem_append_right _ (by decide)

/-- The first line of a request. -/
def PageCall.requestLine (c : PageCall) (exec : Text) : Text :=
  "GET ".toList ++ c.url exec ++ " HTTP/1.1\r\n".toList

lemma newline_not_mem_url (h : '\n' ∉ exec) : '\n' ∉ c.url exec := by
  have hnumber : ∀ x : ℤ, '\n' ∉ showInt x := fun x => not_mem_showInt rfl (by simp)
  have hpath : '\n' ∉ c.path := by
    have hall : ∀ path ∈ endpoints.map Endpoint.uri, '\n' ∉ path := by decide +kernel
    exact hall _ (path_mem c)
  rw [url_eq]
  cases c <;> simp [PageCall.pairs, PageCall.numbers, joinPairs, List.intercalate, h, hnumber,
    hpath]

/-- The first empty line of a request ends behind its first line. -/
lemma requestLine_lt (hexec : '\n' ∉ exec) (hend : HeaderEnd (c.requestText exec headers) n) :
    (c.requestLine exec).length < n := by
  by_contra hle
  have htake : (c.requestText exec headers).take n = (c.requestLine exec).take n :=
    @List.take_append_of_le_length _ (c.requestLine exec) headers n (by omega)
  have hbefore : (c.requestLine exec).dropLast
      = "GET ".toList ++ c.url exec ++ " HTTP/1.1\r".toList :=
    List.dropLast_append_of_ne_nil (by simp)
  have hsub : ((c.requestLine exec).take n).dropLast.Sublist (c.requestLine exec).dropLast := by
    rw [List.dropLast_eq_take, List.dropLast_eq_take, List.take_take, List.length_take]
    exact List.take_sublist_take_left (by omega)
  have hends := hend.ends
  rw [htake] at hends
  have hmem := hsub.subset hends.newline_mem
  rw [hbefore] at hmem
  simp [newline_not_mem_url hexec] at hmem

lemma refused_of_sentAsIs {x : Char} (h : sentAsIs x = true) : refused x = false := by
  simp only [sentAsIs, decide_eq_true_eq] at h
  simp only [refused, decide_eq_false_iff_not]
  omega

lemma refused_of_mem_showInt {x : Char} {y : ℤ} (h : x ∈ showInt y) : refused x = false := by
  rcases mem_showInt h with hdigit | rfl
  · simp only [Char.isDigit, Bool.and_eq_true, decide_eq_true_eq] at hdigit
    have hlow : 48 ≤ x.toNat := hdigit.1
    have hhigh : x.toNat ≤ 57 := hdigit.2
    simp only [refused, decide_eq_false_iff_not]
    omega
  · rfl

/-- Nothing in the first line is refused. -/
lemma requestLine_allowed (hexec : ∀ x ∈ exec, sentAsIs x = true) :
    ∀ x ∈ c.requestLine exec, refused x = false := by
  have hpath : ∀ x ∈ c.path, refused x = false := by
    have hall : ∀ path ∈ endpoints.map Endpoint.uri, path.all (fun x => !refused x) = true := by
      decide +kernel
    intro x hx
    simpa using List.all_eq_true.mp (hall _ (path_mem c)) x hx
  have hkeys : ∀ kx ∈ c.numbers, ∀ x ∈ kx.1, refused x = false := by
    cases c <;> simp [PageCall.numbers, refused]
  have hwords : ∀ word ∈ ["GET ".toList, "?exec=".toList, " HTTP/1.1\r\n".toList],
      ∀ x ∈ word, refused x = false := by
    intro word hword x hx
    have hall : ["GET ".toList, "?exec=".toList, " HTTP/1.1\r\n".toList].all
        (fun word => word.all fun x => !refused x) = true := by decide +kernel
    simpa using List.all_eq_true.mp (List.all_eq_true.mp hall word hword) x hx
  intro x hx
  simp only [PageCall.requestLine, PageCall.url, List.mem_append, List.mem_flatMap] at hx
  rcases hx with (hx | ((hx | hx) | hx) | ⟨⟨key, y⟩, hky, hx⟩) | hx
  · exact hwords _ (by simp) x hx
  · exact hpath x hx
  · exact hwords _ (by simp) x hx
  · exact refused_of_sentAsIs (hexec x hx)
  · rcases hx with hx | hx
    · rcases List.mem_cons.mp hx with rfl | hx
      · rfl
      · exact hkeys _ hky x hx
    · rcases List.mem_cons.mp hx with rfl | hx
      · rfl
      · exact refused_of_mem_showInt hx
  · exact hwords _ (by simp) x hx

/-- A request is not cut short where nothing before the end of its header is refused. -/
lemma not_cutShort {sent : Text} {lengths : List ℕ} (h : ∀ x ∈ sent.take n, refused x = false) :
    CutShort sent n lengths = false := by
  refine List.any_eq_false.mpr fun c _ hcut => ?_
  obtain ⟨hlt, hrefused⟩ := of_decide_eq_true hcut
  obtain ⟨x, hx, hx'⟩ := List.any_eq_true.mp hrefused
  have hmem := (List.take_sublist_take_left (Nat.le_of_lt hlt)).subset
    ((List.dropLast_sublist _).subset hx)
  rw [h x hmem] at hx'
  cases hx'

/-- **The page's requests** are handled however they arrive.  Whatever piece the network ends where,
what reaches `handle_request` is the method `GET`, exactly the URL that the page built, and the
version 1.1.  The header has to end within the buffer, and nothing in it may be refused: behind a
control character it would depend on the pieces whether the connection is closed. -/
theorem pageCall_framed (hexec : ∀ x ∈ exec, sentAsIs x = true)
    (harrives : Arrives schedule (c.requestText exec headers)) (hn : n ≤ bufsiz)
    (hend : HeaderEnd (c.requestText exec headers) n)
    (hheaders : ∀ x ∈ headers.take (n - (c.requestLine exec).length), refused x = false)
    (remote_ip : UInt32) :
    process_new_connection bufsiz remote_ip schedule (c.requestText exec headers)
      = .handle ⟨"GET".toList, c.url exec, "1.1".toList, remote_ip⟩ := by
  have hnot : ∀ d, sentAsIs d = false → d ∉ exec := fun d hd hmem =>
    absurd (hexec d hmem) (by simp [hd])
  have hlt := requestLine_lt (hnot '\n' (by decide)) hend
  have htake : ∀ m, (c.requestLine exec).length ≤ m → (c.requestText exec headers).take m
      = c.requestLine exec ++ headers.take (m - (c.requestLine exec).length) := by
    intro m hm
    show (c.requestLine exec ++ headers).take m = _
    rw [List.take_append, List.take_of_length_le hm]
  have hwhole : ∀ x ∈ (c.requestText exec headers).take n, refused x = false := by
    rw [htake n (Nat.le_of_lt hlt)]
    intro x hx
    exact (List.mem_append.mp hx).elim (requestLine_allowed hexec x) (hheaders x)
  have hvalid : is_valid_uri (c.url exec) = true := by
    obtain ⟨rest, hrest⟩ := exists_url c exec
    rw [hrest]
    rfl
  rw [process_of_headerEnd harrives remote_ip hn hend, not_cutShort hwhole,
    htake (n - 1) (by omega)]
  show answerRequest remote_ip (c.requestText exec _) = _
  rw [answerRequest, parse_requestText remote_ip _ ⟨hnot ' ' (by decide), hnot '\x00' (by decide)⟩]
  simp only [hvalid]
  rfl

end Page

/-- The counts are asked for, without headers, and arrive in two pieces. -/
theorem countsCall_framed : process_new_connection 16384 0 [10, 100]
      (PageCall.f_counts.requestText "a.out".toList "\r\n".toList)
    = .handle ⟨"GET".toList, PageCall.f_counts.url "a.out".toList, "1.1".toList, 0⟩ :=
  @pageCall_framed _ _ _ 16384 37 _ (List.all_eq_true.mp (by decide +kernel))
    ⟨by decide, by decide +kernel⟩ (by decide)
    (headerEnd_of_get_request_len (by decide +kernel) (by decide))
    (fun x hx => by
      have hall : "\r\n".toList.all (fun x => !refused x) = true := by decide
      simpa using List.all_eq_true.mp hall x (List.mem_of_mem_take hx)) 0

end PerVERT
