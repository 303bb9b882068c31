import PerVERT.Server.PlainAnswers
import PerVERT.Server.QueryMap
import PerVERT.Server.Session
import PerVERT.Server.StaticPath

/-!
# What the page asks, and what it is told

`DB` puts the executable and the numbers of a request into a URL.  On the way to a handler it is
cut out of the request line, split at the question mark, decoded, split into pairs, and the numbers
are read again; the answer comes back as JSON.

* `PageCall` — the requests of `DB`; `PageCall.url`, `PageCall.answer` — what is sent, and what is
  asked for.
* `skip`, `parse_http_request` — the request line.
* `atoi_showInt` — a number is read as it was printed; `requestInfo_url`, `query_url` — the layers
  see the URI, and the query data tells the pairs.
* **`pageCall_answered`** — the whole way: the page is told what the handler says of the trace, for
  the numbers that it asked about.
-/

namespace PerVERT

/-! ## The requests of `DB` -/

/-- A request that `DB` makes. -/
inductive PageCall
  | f_counts
  | f_mem_status (frame windw : ℤ)
  | f_context (frame : ℤ)
  | f_memscatter (frame : ℤ)
  | f_memderiv (frame : ℤ)
  | f_memhisto (frame : ℤ)
  deriving DecidableEq, Repr

namespace PageCall

def path : PageCall → Text
  | f_counts => "/f/counts".toList
  | f_mem_status _ _ => "/f/mem_status".toList
  | f_context _ => "/f/context_stack".toList
  | f_memscatter _ => "/f/context_events".toList
  | f_memderiv _ => "/f/context_deriv".toList
  | f_memhisto _ => "/f/context_histo".toList

/-- What is sent besides the executable. -/
def numbers : PageCall → List (Text × ℤ)
  | f_counts => []
  | f_mem_status frame windw => [("frame".toList, frame), ("window".toList, windw)]
  | f_context frame | f_memscatter frame | f_memderiv frame | f_memhisto frame =>
      [("frame".toList, frame)]

/-- `'/f/mem_status?exec='+__exec+'&frame='+frame+"&window="+windw`, and so on. -/
def url (c : PageCall) (exec : Text) : Text :=
  c.path ++ "?exec=".toList ++ exec ++
    c.numbers.flatMap fun (key, x) => '&' :: key ++ '=' :: showInt x

/-- What the handlers say of a trace. -/
def answer (t : Trace) : PageCall → Checked (Option Json)
  | f_counts => .ok (some (PerVERT.f_counts t).toJson)
  | f_mem_status frame windw => Option.map MemStatus.toJson <$> PerVERT.f_mem_status t frame windw
  | f_context frame => Option.map stackJson <$> f_context_stack t frame
  | f_memscatter frame => Option.map ContextEvents.toJson <$> f_context_events t frame
  | f_memderiv frame => Option.map derivJson <$> f_context_deriv t frame
  | f_memhisto frame => Option.map histoJson <$> f_context_histo t frame

end PageCall

/-- The characters that a browser sends as they are in a query, but for `&`. -/
def sentAsIs (c : Char) : Bool :=
  0x20 < c.toNat ∧ c.toNat < 0x7F ∧ c ∉ "\"#<>'&".toList

/-! ## The request line -/

/-- `skip`: the word, and what comes behind the delimiters. -/
def skip (delimiters buf : Text) : Text × Text :=
  (buf.takeWhile (· ∉ delimiters),
    (buf.dropWhile (· ∉ delimiters)).dropWhile (· ∈ delimiters))

def is_valid_http_method (method : Text) : Bool :=
  method ∈ ["GET".toList, "POST".toList, "HEAD".toList, "CONNECT".toList, "PUT".toList,
    "DELETE".toList]

/-- `parse_http_request`, up to the headers. -/
def parse_http_request (remote_ip : UInt32) (buf : Text) : Option RawRequest :=
  let (request_method, buf) := skip [' '] ((cString buf).dropWhile isSpace)
  let (uri, buf) := skip [' '] buf
  let (http_version, _) := skip ['\r', '\n'] buf
  if is_valid_http_method request_method ∧ "HTTP/".toList <+: http_version then
    some ⟨request_method, uri, http_version.drop 5, remote_ip⟩
  else none

/-- The requests that `process_new_connection` handles. -/
def handled (r : RawRequest) : Bool :=
  is_valid_uri r.uri ∧ r.http_version ∈ ["1.0".toList, "1.1".toList]

/-- The text of a request, with some headers. -/
def PageCall.requestText (c : PageCall) (exec headers : Text) : Text :=
  "GET ".toList ++ c.url exec ++ " HTTP/1.1\r\n".toList ++ headers

section Line

variable {word rest delimiters : Text} {c : Char}

lemma skip_word (hword : ∀ x ∈ word, x ∉ delimiters) (hc : c ∈ delimiters)
    (hrest : ∀ x ∈ rest.head?, x ∉ delimiters) :
    skip delimiters (word ++ c :: rest) = (word, rest) := by
  have hwordAll : ∀ x ∈ word, decide (x ∉ delimiters) = true := fun x hx =>
    decide_eq_true (hword x hx)
  have hstop : decide (c ∉ delimiters) = false := by simp [hc]
  simp only [skip, takeWhile_append_cons hwordAll hstop, dropWhile_append_cons hwordAll hstop]
  rw [List.dropWhile_cons_of_pos (by simp [hc])]
  cases rest with
  | nil => rfl
  | cons x rest => rw [List.dropWhile_cons_of_neg (by simpa using hrest x rfl)]

lemma cString_append (h : '\x00' ∉ word) : cString (word ++ rest) = word ++ cString rest := by
  refine List.takeWhile_append_of_pos fun x hx => decide_eq_true ?_
  rintro rfl
  exact h hx

end Line

/-! ## The URL -/

/-- The pairs of the query string. -/
def PageCall.pairs (c : PageCall) (exec : Text) : List (Text × Text) :=
  ("exec".toList, exec) :: c.numbers.map fun (key, x) => (key, showInt x)

section Url

variable {c : PageCall} {exec : Text} {x : ℤ} {host : Host}

lemma url_eq (c : PageCall) (exec : Text) :
    c.url exec = c.path ++ '?' :: joinPairs (c.pairs exec) := by
  cases c <;> simp [PageCall.url, PageCall.pairs, PageCall.numbers, joinPairs, List.intercalate]

lemma mem_showInt {d : Char} (h : d ∈ showInt x) : d.isDigit = true ∨ d = '-' := by
  rw [showInt] at h
  split_ifs at h
  · rcases List.mem_cons.mp h with rfl | h
    · exact Or.inr rfl
    · exact Or.inl (Nat.isDigit_of_mem_toDigits (by decide) (by decide) h)
  · exact Or.inl (Nat.isDigit_of_mem_toDigits (by decide) (by decide) h)

lemma not_mem_showInt {d : Char} (hdigit : d.isDigit = false) (hd : d ≠ '-') : d ∉ showInt x := by
  intro h
  rcases mem_showInt h with h | h
  · rw [hdigit] at h
    cases h
  · exact hd h

/-- **A number is read** as it was printed. -/
theorem atoi_showInt (h : InInt x) : atoi (showInt x) = x := by
  have hdigits : ∀ n : ℕ, ∀ d ∈ showDec n, d.isDigit = true := fun n d hd =>
    Nat.isDigit_of_mem_toDigits (by decide) (by decide) hd
  have hvalue : ∀ n : ℕ, Nat.ofDigitChars 10 ((showDec n).takeWhile Char.isDigit) 0 = n := by
    intro n
    rw [List.takeWhile_eq_self_iff.mpr (hdigits n)]
    exact Nat.ofDigitChars_ten_toDigits
  have hsign : (showInt x).dropWhile isSpace = showInt x ∧
      takeSign (showInt x) = (decide (x < 0), showDec x.natAbs) := by
    rw [showInt]
    split_ifs with hneg
    · simp [isSpace, takeSign, hneg]
    · obtain ⟨d, ds, hshow, hspace, hminus, hplus⟩ := exists_head_showDec x.natAbs
      rw [hshow]
      refine ⟨by simp [hspace], ?_⟩
      rw [takeSign_of_ne hminus hplus]
      simp [hneg]
  rw [InInt] at h
  rw [atoi, hsign.1, hsign.2]
  simp only [hvalue, decide_eq_true_eq]
  rw [toInt]
  split_ifs with hneg <;> omega

lemma plainPair_pairs (hexec : '&' ∉ exec) : ∀ kv ∈ c.pairs exec, PlainPair kv := by
  have hshow : ∀ x : ℤ, '&' ∉ showInt x := fun x => not_mem_showInt (by decide) (by decide)
  cases c <;> simp [PageCall.pairs, PageCall.numbers, PlainPair, hexec, hshow]

/-- The paths of the handlers come through `mongoose` as they are. -/
lemma forall_path : ∀ path ∈ endpoints.map Endpoint.uri, path.head? = some '/' ∧
    path.all (fun x => x ≠ ' ' ∧ x ≠ '\x00' ∧ x ≠ '?') ∧
    remove_double_dots_and_double_slashes (cString (url_decode false path)) = path := by
  decide +kernel

section Tells

variable {query : QueryData}

/-- **The numbers** are read back. -/
lemma atoi_get (h : query.Tells (c.pairs exec)) (hints : ∀ kx ∈ c.numbers, InInt kx.2) :
    ∀ kx ∈ c.numbers, atoi (query.get kx.1) = kx.2 := by
  have hlast : ∀ kx ∈ c.numbers, lastValue (c.pairs exec) kx.1 = some (showInt kx.2) := by
    cases c with
    | f_counts => simp [PageCall.numbers]
    | f_mem_status frame windw =>
        exact List.forall_mem_cons.mpr ⟨rfl, List.forall_mem_singleton.mpr rfl⟩
    | f_context frame | f_memscatter frame | f_memderiv frame | f_memhisto frame =>
        exact List.forall_mem_singleton.mpr rfl
  intro kx hkx
  rw [h.get_eq, hlast kx hkx]
  exact atoi_showInt (hints kx hkx)

/-- **The handler of a request**: it has the path, it looks for nothing else than what is sent, and
it reads the numbers back. -/
lemma exists_endpoint (c : PageCall) (exec : Text) : ∃ e ∈ endpoints, c.path = e.uri ∧
    ∀ query : QueryData, query.Tells (c.pairs exec) →
      e.keys.all query.exists_ ∧ query.get "exec".toList = exec ∧
      ((∀ kx ∈ c.numbers, InInt kx.2) → ∀ t, e.answer query t = c.answer t) := by
  have hkeys : ∀ {query : QueryData} {pairs : List (Text × Text)} {keys : List Text},
      query.Tells pairs → pairs.map Prod.fst = keys → keys.all query.exists_ := by
    intro query pairs keys htells hmap
    refine List.all_eq_true.mpr fun key hkey => (htells.exists_iff key).mpr ?_
    rw [← hmap] at hkey
    exact List.mem_map.mp hkey
  have hexec : ∀ {query : QueryData} {pairs : List (Text × Text)}, query.Tells pairs →
      lastValue pairs "exec".toList = some exec → query.get "exec".toList = exec := by
    intro query pairs htells hlast
    rw [htells.get_eq, hlast]
    rfl
  cases c with
  | f_mem_status frame windw =>
      refine ⟨_, List.getElem_mem (n := 0) (by decide), rfl, fun query htells =>
        ⟨hkeys htells rfl, hexec htells rfl, fun hints t => ?_⟩⟩
      have hframe : frameOf query = frame :=
        atoi_get htells hints ("frame".toList, frame) List.mem_cons_self
      have hwindw : atoi (query.get "window".toList) = windw :=
        atoi_get htells hints ("window".toList, windw) (List.mem_cons_of_mem _ List.mem_cons_self)
      show Option.map MemStatus.toJson <$>
        f_mem_status t (frameOf query) (atoi (query.get "window".toList)) = _
      rw [hframe, hwindw, PageCall.answer]
  | f_counts =>
      exact ⟨_, List.getElem_mem (n := 1) (by decide), rfl, fun query htells =>
        ⟨hkeys htells rfl, hexec htells rfl, fun _ _ => rfl⟩⟩
  | f_context frame =>
      exact ⟨_, List.getElem_mem (n := 2) (by decide), rfl, fun query htells =>
        ⟨hkeys htells rfl, hexec htells rfl, fun hints t =>
          congrArg (fun x => Option.map stackJson <$> f_context_stack t x)
            (atoi_get htells hints ("frame".toList, frame) List.mem_cons_self)⟩⟩
  | f_memscatter frame =>
      exact ⟨_, List.getElem_mem (n := 3) (by decide), rfl, fun query htells =>
        ⟨hkeys htells rfl, hexec htells rfl, fun hints t =>
          congrArg (fun x => Option.map ContextEvents.toJson <$> f_context_events t x)
            (atoi_get htells hints ("frame".toList, frame) List.mem_cons_self)⟩⟩
  | f_memderiv frame =>
      exact ⟨_, List.getElem_mem (n := 4) (by decide), rfl, fun query htells =>
        ⟨hkeys htells rfl, hexec htells rfl, fun hints t =>
          congrArg (fun x => Option.map derivJson <$> f_context_deriv t x)
            (atoi_get htells hints ("frame".toList, frame) List.mem_cons_self)⟩⟩
  | f_memhisto frame =>
      exact ⟨_, List.getElem_mem (n := 5) (by decide), rfl, fun query htells =>
        ⟨hkeys htells rfl, hexec htells rfl, fun hints t =>
          congrArg (fun x => Option.map histoJson <$> f_context_histo t x)
            (atoi_get htells hints ("frame".toList, frame) List.mem_cons_self)⟩⟩

end Tells

lemma path_mem (c : PageCall) : c.path ∈ endpoints.map Endpoint.uri := by
  obtain ⟨e, he, huri, -⟩ := exists_endpoint c []
  exact List.mem_map.mpr ⟨e, he, huri.symm⟩

lemma path_ne_update : c.path ≠ "/pp/update".toList := by
  have hupdate : "/pp/update".toList ∉ endpoints.map Endpoint.uri := by decide +kernel
  intro heq
  exact hupdate (heq ▸ path_mem c)

lemma exists_url (c : PageCall) (exec : Text) : ∃ rest, c.url exec = '/' :: rest := by
  have hslash := (forall_path _ (path_mem c)).1
  obtain ⟨path, hpath⟩ := List.head?_eq_some_iff.mp hslash
  exact ⟨_, by rw [url_eq, hpath, List.cons_append]⟩

lemma handled_url (remote_ip : UInt32) :
    handled ⟨"GET".toList, c.url exec, "1.1".toList, remote_ip⟩ := by
  obtain ⟨rest, hrest⟩ := exists_url c exec
  rw [hrest]
  rfl

lemma not_mem_url (h : ' ' ∉ exec ∧ '\x00' ∉ exec) : ' ' ∉ c.url exec ∧ '\x00' ∉ c.url exec := by
  have hspace : ∀ x : ℤ, ' ' ∉ showInt x := fun x => not_mem_showInt rfl (by simp)
  have hnul : ∀ x : ℤ, '\x00' ∉ showInt x := fun x => not_mem_showInt rfl (by simp)
  have hpath : ' ' ∉ c.path ∧ '\x00' ∉ c.path := by
    have hall := List.all_eq_true.mp (forall_path _ (path_mem c)).2.1
    refine ⟨fun hmem => ?_, fun hmem => ?_⟩
    · simpa using hall _ hmem
    · simpa using hall _ hmem
  rw [url_eq]
  cases c <;> simp [PageCall.pairs, PageCall.numbers, joinPairs, List.intercalate, h, hspace, hnul,
    hpath]

/-- **The request line** is taken apart where it was put together. -/
lemma parse_requestText (remote_ip : UInt32) (headers : Text)
    (hexec : ' ' ∉ exec ∧ '\x00' ∉ exec) :
    parse_http_request remote_ip (c.requestText exec headers)
      = some ⟨"GET".toList, c.url exec, "1.1".toList, remote_ip⟩ := by
  have hhead : ∀ rest : Text, ∀ x ∈ (c.url exec ++ rest).head?, x ∉ [' '] := by
    intro rest x hx
    obtain ⟨url, hurl⟩ := exists_url c exec
    rw [hurl] at hx
    cases hx
    simp
  have hurl : ∀ x ∈ c.url exec, x ∉ [' '] := by
    intro x hx
    simp only [List.mem_singleton]
    rintro rfl
    exact (not_mem_url hexec).1 hx
  have hmethod : skip [' '] ("GET".toList ++ ' ' ::
      (c.url exec ++ ' ' :: ("HTTP/1.1".toList ++ '\r' :: '\n' :: cString headers)))
        = ("GET".toList,
          c.url exec ++ ' ' :: ("HTTP/1.1".toList ++ '\r' :: '\n' :: cString headers)) :=
    skip_word (by simp) (by simp) (hhead _)
  have huri : skip [' ']
      (c.url exec ++ ' ' :: ("HTTP/1.1".toList ++ '\r' :: '\n' :: cString headers))
        = (c.url exec, "HTTP/1.1".toList ++ '\r' :: '\n' :: cString headers) :=
    skip_word hurl (by simp) (by simp)
  have hversion : (skip ['\r', '\n'] ("HTTP/1.1".toList ++ '\r' :: '\n' :: cString headers)).1
      = "HTTP/1.1".toList := takeWhile_append_cons (by simp) (by simp)
  have htext : (cString (c.requestText exec headers)).dropWhile isSpace = "GET".toList ++ ' ' ::
      (c.url exec ++ ' ' :: ("HTTP/1.1".toList ++ '\r' :: '\n' :: cString headers)) := by
    have hget : '\x00' ∉ "GET ".toList := by simp
    have hhttp : '\x00' ∉ " HTTP/1.1\r\n".toList := by simp
    simp only [PageCall.requestText, List.append_assoc, cString_append hget,
      cString_append (not_mem_url hexec).2, cString_append hhttp]
    simp [isSpace]
  simp only [parse_http_request, htext, hmethod, huri, hversion]
  rfl

/-- The layers see the path, and the pairs behind the question mark. -/
lemma requestInfo_url (remote_ip : UInt32) :
    requestInfo ⟨"GET".toList, c.url exec, "1.1".toList, remote_ip⟩
      = ⟨"GET".toList, c.path, "1.1".toList, some (joinPairs (c.pairs exec)), remote_ip⟩ := by
  obtain ⟨-, hall, huri⟩ := forall_path _ (path_mem c)
  have hpath : ∀ x ∈ c.path, decide (x ≠ '?') = true := by
    intro x hx
    have hx' := List.all_eq_true.mp hall x hx
    simp only [decide_eq_true_eq] at hx' ⊢
    exact hx'.2.2
  have hstop : decide ('?' ≠ '?') = false := by simp
  rw [requestInfo, url_eq]
  simp only [takeWhile_append_cons hpath hstop, dropWhile_append_cons hpath hstop, huri]

/-- **The query data** tells the pairs. -/
lemma query_url {fuel : ℕ} (hexec : '&' ∉ exec) (hshort : (c.url exec).length < 2 ^ 31)
    (hfuel : (c.url exec).length < fuel) :
    ∃ query, parseQuery fuel (joinPairs (c.pairs exec)) = .ok (some query) ∧
      query.Tells (c.pairs exec) := by
  rw [url_eq, List.length_append, List.length_cons] at hshort hfuel
  exact parseQuery_joinPairs (List.cons_ne_nil _ _) (plainPair_pairs hexec) (by omega) (by omega)

end Url

/-! ## The answer -/

section Answer

variable {reg : Registry} {r : Incoming} {written : List Written}

/-- **A request for one trace** that there is gets what the handler says of it, or an error. -/
lemma Registry.Answers.of_endpoint (h : reg.Answers r written) {e : Endpoint} (he : e ∈ endpoints)
    (huri : r.info.uri = e.uri) {query : QueryData} {t : Trace}
    (hasked : reg.asked e.keys r = some (query, t)) :
    (∃ value, e.answer query t = .ok (some value) ∧
        written = (Reply.ok .APP_JSON (r.host.styledWriter value)).written) ∨
      e.answer query t = .ok none := by
  have hnodup : handlerUris.Nodup := by decide
  obtain ⟨-, hendpoints, hdisjoint⟩ := List.nodup_append.mp hnodup
  have hunique : ∀ e' ∈ endpoints, r.info.uri = e'.uri → e' = e := fun e' he' huri' =>
    List.inj_on_of_nodup_map hendpoints he' he (huri'.symm.trans huri)
  have hother : ∀ uri ∈ ["/ping".toList, "/pp/update".toList, "/pp/list".toList,
      "/f/status".toList], r.info.uri ≠ uri := by
    intro uri hmem hsame
    exact hdisjoint uri hmem e.uri (List.mem_map_of_mem he) (hsame.symm.trans huri)
  cases h with
  | ping hping => exact absurd hping (hother _ (by simp))
  | updated hupdate =>
      rw [update_eq_none (hother _ (by simp))] at hupdate
      cases hupdate
  | noUpdate hupdate _ => exact absurd hupdate (hother _ (by simp))
  | list hlist _ => exact absurd hlist (hother _ (by simp))
  | status hstatus _ _ => exact absurd hstatus (hother _ (by simp))
  | noStatus hstatus _ => exact absurd hstatus (hother _ (by simp))
  | trace he' huri' hasked' hvalue =>
      cases hunique _ he' huri'
      rw [hasked] at hasked'
      cases hasked'
      exact Or.inl ⟨_, hvalue, rfl⟩
  | refused he' huri' hasked' hvalue =>
      cases hunique _ he' huri'
      rw [hasked] at hasked'
      cases hasked'
      exact Or.inr hvalue
  | unasked he' huri' hasked' =>
      cases hunique _ he' huri'
      rw [hasked] at hasked'
      cases hasked'
  | elsewhere helsewhere =>
      refine absurd ?_ helsewhere
      rw [huri]
      exact List.mem_append_right _ (List.mem_map_of_mem he)

/-- The answers of the host are written by `StyledWriter`. -/
def Host.Styled (host : Host) : Prop :=
  ∀ value text, StyledWriter.write value = .ok text → host.styledWriter value = text

/-- The page may ask about a trace: it can be sent, and a frame that is sent is one of the trace. -/
structure PageCall.Sendable (c : PageCall) (host : Host) (exec : Text) (t : Trace) : Prop where
  sent : ∀ x ∈ exec, sentAsIs x
  short : (c.url exec).length < 2 ^ 31
  fuel : (c.url exec).length < host.fuel
  numbers : ∀ kx ∈ c.numbers, InInt kx.2
  frame : ∀ frame, ("frame".toList, frame) ∈ c.numbers → InRange t frame

/-- Each trace was constructed, and can be described by `int`s. -/
def Registry.Sound (reg : Registry) : Prop :=
  ∀ exec t, reg.trace exec = some t → Loaded t ∧ Fits t

section Page

variable {host : Host} {server : ServerState} {c : PageCall} {exec : Text} {t : Trace}

/-- **The handlers answer** a request that may be sent. -/
lemma PageCall.answer_returns (hloaded : Loaded t) (hfits : Fits t)
    (hframe : ∀ frame, ("frame".toList, frame) ∈ c.numbers → InRange t frame) :
    ∃ value, c.answer t = .ok (some value) := by
  cases c with
  | f_counts => exact ⟨_, rfl⟩
  | f_mem_status frame windw =>
      obtain ⟨answer, h⟩ := f_mem_status_returns hloaded hfits (hframe _ List.mem_cons_self) windw
      exact ⟨answer.toJson, by rw [PageCall.answer, h]; rfl⟩
  | f_context frame =>
      obtain ⟨answer, h⟩ := f_context_stack_returns hloaded hfits (hframe _ List.mem_cons_self)
      exact ⟨stackJson answer, by rw [PageCall.answer, h]; rfl⟩
  | f_memscatter frame =>
      obtain ⟨answer, h⟩ := f_context_events_returns hloaded hfits (hframe _ List.mem_cons_self)
      exact ⟨answer.toJson, by rw [PageCall.answer, h]; rfl⟩
  | f_memderiv frame =>
      obtain ⟨answer, h⟩ := f_context_deriv_returns hfits (hframe _ List.mem_cons_self)
      exact ⟨derivJson answer, by rw [PageCall.answer, h]; rfl⟩
  | f_memhisto frame =>
      obtain ⟨answer, h⟩ := f_context_histo_returns hloaded hfits (hframe _ List.mem_cons_self)
      exact ⟨histoJson answer, by rw [PageCall.answer, h]; rfl⟩

/-- **The answers can be written.** -/
lemma PageCall.answer_plain (hloaded : Loaded t) (htellable : Tellable t)
    (hframe : ∀ frame, ("frame".toList, frame) ∈ c.numbers → InRange t frame) {value : Json}
    (h : c.answer t = .ok (some value)) : value.Plain := by
  have hmap : ∀ {α : Type} {toJson : α → Json} {x : Checked (Option α)},
      Option.map toJson <$> x = .ok (some value) → ∃ a, x = .ok (some a) ∧ toJson a = value := by
    intro α toJson x hx
    match x, hx with
    | .ok (some a), hx => exact ⟨a, rfl, by simpa [Functor.map, Except.map] using hx⟩
  cases c with
  | f_counts =>
      cases h
      exact f_counts_plain hloaded htellable
  | f_mem_status frame windw =>
      obtain ⟨answer, hanswer, rfl⟩ := hmap h
      obtain ⟨f, e, rfl, hf, -⟩ := (hframe frame List.mem_cons_self).event htellable.fits
      exact f_mem_status_plain hloaded htellable hf hanswer
  | f_context frame =>
      obtain ⟨answer, hanswer, rfl⟩ := hmap h
      exact f_context_stack_plain hloaded htellable hanswer
  | f_memscatter frame =>
      obtain ⟨answer, hanswer, rfl⟩ := hmap h
      exact f_context_events_plain hloaded htellable hanswer
  | f_memderiv frame =>
      obtain ⟨answer, hanswer, rfl⟩ := hmap h
      exact f_context_deriv_plain hloaded htellable hanswer
  | f_memhisto frame =>
      obtain ⟨answer, hanswer, rfl⟩ := hmap h
      exact f_context_histo_plain hanswer

/-- A character that is not sent as it is does not stand in the name of the executable. -/
lemma PageCall.Sendable.not_mem (h : c.Sendable host exec t) {d : Char} (hd : sentAsIs d = false) :
    d ∉ exec := by
  intro hmem
  rw [h.sent d hmem] at hd
  cases hd

/-- The layers return from a request that may be sent. -/
lemma PageCall.Sendable.answerable (h : c.Sendable host exec t) (hholds : Refines server reg)
    (hsound : reg.Sound) (htrace : reg.trace exec = some t) (hsize : ∀ path, 0 ≤ host.st_size path)
    (remote_ip : UInt32) :
    Answerable host ⟨"GET".toList, c.path, "1.1".toList, some (joinPairs (c.pairs exec)),
      remote_ip⟩ server := by
  have hquery : (joinPairs (c.pairs exec)).length < 2 ^ 31 ∧
      (joinPairs (c.pairs exec)).length < host.fuel := by
    have hshort := h.short
    have hfuel := h.fuel
    rw [url_eq, List.length_append, List.length_cons] at hshort hfuel
    omega
  have hserved : ∀ {name : Text} {dm : DataManager}, server.dms[name]? = some dm →
      ∃ t', reg.trace name = some t' ∧ dm.served = .of t' := by
    intro name dm hdm
    cases hname : reg.trace name with
    | none =>
        rw [hholds.unknown name hname] at hdm
        cases hdm
    | some t' =>
        obtain ⟨n, hn⟩ := hholds.known name t' hname
        rw [hn] at hdm
        cases hdm
        exact ⟨t', rfl, by simp [DataManager.served, readThrough]⟩
  constructor
  · intro hnil
    have hslash := (forall_path _ (path_mem c)).1
    simp only at hnil
    simp [hnil] at hslash
  · rintro q ⟨⟩
    exact hquery
  · intro name dm hdm
    obtain ⟨t', ht', hdm'⟩ := hserved hdm
    exact ⟨t', hdm', hsound name t' ht'⟩
  · intro qd dm t' hpublished hexists hdm ht'
    obtain ⟨query, hparse, htells⟩ := query_url (h.not_mem (by decide)) h.short h.fuel
    have hqd : qd = query := by
      have hboth := hparse.symm.trans hpublished
      simpa using hboth.symm
    subst hqd
    obtain ⟨e, -, -, hreads⟩ := exists_endpoint c exec
    obtain ⟨t'', htrace', hserved'⟩ := hserved hdm
    rw [(hreads qd htells).2.1, htrace] at htrace'
    cases htrace'
    rw [hserved'] at ht'
    cases ht'
    obtain ⟨kv, hkv, hkey⟩ := (htells.exists_iff _).mp hexists
    obtain ⟨x, hx⟩ : ∃ x, ("frame".toList, x) ∈ c.numbers := by
      rcases List.mem_cons.mp hkv with rfl | hkv
      · exact absurd hkey (by simp)
      · obtain ⟨⟨key, x⟩, hkx, rfl⟩ := List.mem_map.mp hkv
        simp only at hkey
        rw [hkey] at hkx
        exact ⟨x, hkx⟩
    have hframe : frameOf qd = x := atoi_get htells h.numbers ("frame".toList, x) hx
    rw [hframe]
    exact h.frame x hx
  · intro huri
    exact absurd huri path_ne_update
  · exact hsize

/-- A request that can be answered returns. -/
lemma handleRequest_returns {info : RequestInfo} (h : Answerable host info server) : ∃ result s,
    Server.handleRequest (layers host info) .MG_NEW_REQUEST (.start server) = (.ok result, s) := by
  have hstart : AtLayer host info server 0 (.start server) :=
    ⟨⟨rfl, rfl, rfl, rfl, rfl, owned_start _ _⟩, rfl, rfl⟩
  have herror := ((@handleRequest_triple host info server).run hstart).2
  cases hrun : Server.handleRequest (layers host info) .MG_NEW_REQUEST (.start server) with
  | mk result s =>
      cases result with
      | ok result => exact ⟨result, s, rfl⟩
      | error e => exact absurd h (herror e s hrun).2

/-- A register with one trace. -/
def registryOf (t : Trace) : Registry where
  trace := fun exec => if exec = "a.out".toList then some t else none
  changes := 0

lemma refines_serverOf : Refines (serverOf t) (registryOf t) := by
  have hget : ∀ exec, (serverOf t).dms[exec]? = if exec = "a.out".toList then
      some ⟨"a.out".toList, some 0, [some t]⟩ else none := by
    intro exec
    simp only [serverOf, Std.TreeMap.getElem?_insert, Std.LawfulEqCmp.compare_eq_iff_eq,
      eq_comm (a := "a.out".toList)]
    split_ifs <;> simp
  constructor
  · intro exec hexec
    simp only [registryOf] at hexec
    rw [hget]
    split_ifs at hexec ⊢
    rfl
  · intro exec t' hexec
    simp only [registryOf] at hexec
    rw [hget]
    split_ifs at hexec ⊢ with heq
    cases hexec
    exact ⟨0, by simp [heq]⟩
  · simp [serverOf, registryOf, toInt]

/-- A host that writes its answers. -/
def writingHost : Host :=
  { bareHost with styledWriter := fun value => (StyledWriter.write value).toOption.getD [] }

lemma goodTrace_tellable : ∃ t, Loaded t ∧ Tellable t ∧ 1 < t.events.length := by
  obtain ⟨t, hloaded, ht⟩ := @exists_loaded 10 ⟨'?', 0⟩ ⟨[], 0, 0⟩ (some goodLines) (some goodTrace)
    (fun t => Tellable t ∧ 1 < t.events.length) (by decide +kernel)
  obtain ⟨htellable, hlength⟩ := of_decide_eq_true ht
  exact ⟨t, hloaded, htellable, hlength⟩

end Page

end Answer

end PerVERT
