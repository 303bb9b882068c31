import PerVERT.Core.Path
import PerVERT.Server.Layers

/-!
# Where files are served from

mongoose decodes the URI of a request and takes double dots and slashes out of it before the server
sees it; the static layer appends what is left to its root.

* `url_decode`, `remove_double_dots_and_double_slashes`, `is_valid_uri`, `requestInfo` — from the
  URI as it was sent to the one that the layers see.
* `NoDoubleDots` — no slash of either kind is followed by two dots;
  **`noDoubleDots_remove`**.
* `Host.AgreesOn` — two hosts whose files differ only elsewhere.  There are two kinds of files:
  those that the static layer serves, and the logs that an update opens, at the path that it names.
* **`static_confined`** — no request but an update depends on anything outside of the root.
-/

namespace PerVERT

/-! ## mongoose -/

/-- What `parse_http_request` finds in the first line of a request. -/
structure RawRequest where
  request_method : Text
  uri : Text
  http_version : Text
  remote_ip : UInt32
  deriving DecidableEq, Repr

/-- `is_valid_uri`. -/
def is_valid_uri : Text → Bool
  | '/' :: _ => true
  | ['*'] => true
  | _ => false

/-- One character that `url_decode` does not take for an escape. -/
def plainChar (is_form_url_encoded : Bool) (c : Char) : Char :=
  if is_form_url_encoded ∧ c = '+' then ' ' else c

/-- `url_decode`, with room for all of its source. -/
def url_decode (is_form_url_encoded : Bool) : Text → Text
  | c :: a :: b :: src =>
      if c = '%' ∧ isHexDigit a ∧ isHexDigit b then
        Char.ofNat (16 * hexDigitValue a + hexDigitValue b) :: url_decode is_form_url_encoded src
      else plainChar is_form_url_encoded c :: url_decode is_form_url_encoded (a :: b :: src)
  | c :: src => plainChar is_form_url_encoded c :: url_decode is_form_url_encoded src
  | [] => []

/-- A slash of either kind. -/
def isSlash (c : Char) : Bool := c = '/' ∨ c = '\\'

/-- "Skip all double-dots". -/
def skipDoubleDots : Text → Text
  | '.' :: '.' :: s => skipDoubleDots s
  | s => s

lemma length_skipDoubleDots (s : Text) : (skipDoubleDots s).length ≤ s.length := by
  fun_induction skipDoubleDots s with
  | case1 s ih =>
      simp only [List.length_cons]
      omega
  | case2 s _ => simp

/-- `remove_double_dots_and_double_slashes`. -/
def remove_double_dots_and_double_slashes : Text → Text
  | [] => []
  | c :: s =>
      if isSlash c then
        c :: remove_double_dots_and_double_slashes (skipDoubleDots (s.dropWhile isSlash))
      else c :: remove_double_dots_and_double_slashes s
  termination_by s => s.length
  decreasing_by
    · have hdots := length_skipDoubleDots (s.dropWhile isSlash)
      have hslashes := (s.dropWhile_suffix isSlash).length_le
      simp only [List.length_cons]
      omega
    · simp

/-- What `handle_request` makes of a request before the server is called. -/
def requestInfo (r : RawRequest) : RequestInfo where
  request_method := r.request_method
  uri := remove_double_dots_and_double_slashes
    (cString (url_decode false (r.uri.takeWhile (· ≠ '?'))))
  http_version := r.http_version
  query_string :=
    match r.uri.dropWhile (· ≠ '?') with
    | [] => none
    | _ :: query_string => some query_string
  remote_ip := r.remote_ip

/-! ## Double dots -/

/-- No slash has two dots behind it. -/
def NoDoubleDots (s : Text) : Prop := ∀ c, isSlash c → ¬ [c, '.', '.'] <:+: s

section Uri

variable {c : Char} {s t uri : Text}

lemma head?_remove (s : Text) : (remove_double_dots_and_double_slashes s).head? = s.head? := by
  cases s with
  | nil => simp [remove_double_dots_and_double_slashes]
  | cons c s =>
      rw [remove_double_dots_and_double_slashes]
      split_ifs <;> simp

lemma isSlash_ne_dot (h : isSlash c) : c ≠ '.' := by
  rintro rfl
  revert h
  decide

/-- Text that does not begin with two dots is not made to. -/
lemma not_prefix_remove (h : ¬ ['.', '.'] <+: s) :
    ¬ ['.', '.'] <+: remove_double_dots_and_double_slashes s := by
  cases s with
  | nil => simp [remove_double_dots_and_double_slashes]
  | cons a s =>
      rw [remove_double_dots_and_double_slashes]
      split_ifs with ha
      · simp [(isSlash_ne_dot ha).symm]
      · intro hdots
        simp only [List.cons_prefix_cons] at h hdots
        obtain ⟨rfl, hdots⟩ := hdots
        have hhead := head?_remove s
        cases s with
        | nil => simp [remove_double_dots_and_double_slashes] at hdots
        | cons b s =>
            obtain ⟨rest, hrest⟩ := hdots
            rw [← hrest] at hhead
            simp only [List.cons_append, List.head?_cons, Option.some.injEq] at hhead
            subst hhead
            exact h ⟨rfl, List.prefix_append ['.'] s⟩

lemma not_prefix_skipDoubleDots (s : Text) : ¬ ['.', '.'] <+: skipDoubleDots s := by
  fun_induction skipDoubleDots s with
  | case1 s ih => exact ih
  | case2 s hs =>
      rintro ⟨rest, rfl⟩
      exact hs rest rfl

lemma NoDoubleDots.cons (hs : NoDoubleDots s) (hc : isSlash c → ¬ ['.', '.'] <+: s) :
    NoDoubleDots (c :: s) := by
  intro d hd hinfix
  rcases List.infix_cons_iff.mp hinfix with hprefix | hinfix
  · simp only [List.cons_prefix_cons] at hprefix
    obtain ⟨rfl, hdots⟩ := hprefix
    exact hc hd (by simpa [List.cons_prefix_cons] using hdots)
  · exact hs d hd hinfix

/-- **No double dots** are left behind a slash. -/
theorem noDoubleDots_remove (s : Text) :
    NoDoubleDots (remove_double_dots_and_double_slashes s) := by
  fun_induction remove_double_dots_and_double_slashes s with
  | case1 =>
      intro c _
      simp
  | case2 c s hc ih =>
      exact ih.cons fun _ => not_prefix_remove (not_prefix_skipDoubleDots _)
  | case3 c s hc ih => exact ih.cons fun h => absurd h hc

/-- The names of such a URI are not `..`. -/
lemma NoDoubleDots.components (h : NoDoubleDots ('/' :: t)) :
    ['.', '.'] ∉ components ('/' :: t) := by
  rw [components_cons_slash, List.mem_cons, not_or]
  exact ⟨by simp, fun hmem => h '/' rfl (infix_of_mem_components hmem)⟩

@[simp] lemma plainChar_false (c : Char) : plainChar false c = c := by simp [plainChar]

/-- What is no escape stays. -/
lemma url_decode_cons (h : c ≠ '%') (s : Text) :
    url_decode false (c :: s) = c :: url_decode false s := by
  match s with
  | [] => simp [url_decode]
  | [a] => simp [url_decode]
  | a :: b :: src => simp [url_decode, h]

/-- A leading slash stays. -/
lemma requestInfo_uri {r : RawRequest} (h : is_valid_uri r.uri) :
    (∃ t, (requestInfo r).uri = '/' :: t) ∨ (requestInfo r).uri = ['*'] := by
  simp only [requestInfo]
  unfold is_valid_uri at h
  split at h
  · next t ht =>
      left
      simp [ht, cString, url_decode_cons, remove_double_dots_and_double_slashes, isSlash]
  · next hstar =>
      right
      simp [hstar, cString, url_decode, remove_double_dots_and_double_slashes, isSlash]
  · cases h

end Uri

/-! ## Within the root -/

/-- The paths that a host's root stands for, as far as a valid request can name them: those within
it, and the one that the URI `*` makes of it. -/
def Host.Serves (host : Host) (path : Text) : Prop :=
  Within host.httproot path ∨ path = host.httproot ++ ['*']

/-- The hosts differ in their files at most: not in those that the static layer is asked for where
`Shared` holds, and in the logs only if no update is asked for. -/
structure Host.AgreesOn (host host' : Host) (Shared : Text → Prop) (updates : Prop) : Prop where
  rest : host' = { host with
    access := host'.access, st_size := host'.st_size, fopen := host'.fopen, fread := host'.fread
    files := host'.files }
  access : ∀ path, Shared path → host'.access path = host.access path
  st_size : ∀ path, Shared path → host'.st_size path = host.st_size path
  fopen : ∀ path, Shared path → host'.fopen path = host.fopen path
  fread : ∀ path, Shared path → host'.fread path = host.fread path
  /-- The logs that an update opens. -/
  files : updates → host'.files = host.files

section Confined

variable {host host' : Host} {info : RequestInfo} {Shared : Text → Prop} {updates : Prop}

/-- The file of a URI is one that the root serves. -/
lemma serves_filePath {r : RawRequest} (h : is_valid_uri r.uri) {last : Char}
    (hlast : (requestInfo r).uri.getLast? = some last) :
    host.Serves (filePath host (requestInfo r) last) := by
  have hdots : NoDoubleDots (requestInfo r).uri := noDoubleDots_remove _
  simp only [filePath]
  rcases requestInfo_uri h with ⟨t, ht⟩ | hstar
  · left
    rw [ht] at hdots hlast ⊢
    by_cases hslash : last = '/'
    · -- the name `index.html` comes last, in the place of an empty one
      obtain ⟨u, hu⟩ := List.getLast?_eq_some_iff.mp hlast
      have hnames := hdots.components
      rw [hu, hslash, components_append_slash, List.mem_append, not_or] at hnames
      have hfile : ['.', '.'] ∉ components ('/' :: (t ++ "index.html".toList)) := by
        rw [← List.cons_append, hu, hslash, List.append_assoc, List.singleton_append,
          components_append_slash, List.mem_append, not_or]
        exact ⟨hnames.1, by decide⟩
      simpa [hslash] using within_append host.httproot hfile
    · simpa [hslash] using within_append host.httproot hdots.components
  · right
    rw [hstar] at hlast ⊢
    simp only [List.getLast?_singleton, Option.some.injEq] at hlast
    simp [← hlast]

/-- The static layer asks for the file of the URI only. -/
lemma staticLayer_agrees (h : host.AgreesOn host' Shared updates)
    (hfile : ∀ last, info.uri.getLast? = some last → Shared (filePath host info last)) :
    StaticLayer.handle host' info = StaticLayer.handle host info := by
  funext next
  have hpath : filePath host' info = filePath host info := by
    funext last
    rw [filePath, filePath, h.rest]
  simp only [StaticLayer.handle, hpath]
  split_ifs
  · refine check_bind_congr fun last hvector => ?_
    have hlast : info.uri.getLast? = some last := by
      obtain ⟨_, hat⟩ := vectorAt_eq_ok.mp hvector
      rw [List.getLast?_eq_getElem?, ← hat]
      congr 1
      omega
    have hshared := hfile last hlast
    simp only [h.access _ hshared, h.st_size _ hshared, h.fopen _ hshared, h.fread _ hshared]
  · rfl

/-- The handlers open no file but the logs of an update. -/
lemma pervertLayer_agrees
    (h : host.AgreesOn host' Shared (info.uri = "/pp/update".toList)) :
    PervertLayer.handle host' info = PervertLayer.handle host info := by
  by_cases hupdate : info.uri = "/pp/update".toList
  · have hrest := h.rest
    rw [h.files hupdate] at hrest
    rw [hrest]
    rfl
  · funext next
    rw [h.rest]
    simp only [PervertLayer.handle, if_neg hupdate]
    rfl

/-- The layers ask for the file of the URI and for the logs of an update only. -/
lemma layers_agree (h : host.AgreesOn host' Shared (info.uri = "/pp/update".toList))
    (hfile : ∀ last, info.uri.getLast? = some last → Shared (filePath host info last)) :
    layers host' info = layers host info := by
  have hstatic := staticLayer_agrees h hfile
  have hpervert := pervertLayer_agrees h
  simp only [layers, hstatic, hpervert]
  rw [h.rest]
  rfl

end Confined

/-! ## A request for what lies above the root -/

/-- A host with the root `/srv/frontend`, and perhaps the file `/secret`, which an update would open
as well. -/
def hostWith (secret : Option Text) : Host where
  styledWriter := fun _ => []
  busy := fun _ => false
  starttime := ⟨0, 0⟩
  currentTime := ⟨0, 0⟩
  httproot := "/srv/app/../frontend".toList
  access := fun path => path = "/secret".toList ∧ secret.isSome
  st_size := fun path => if path = "/secret".toList then (secret.getD []).length else 0
  fopen := fun path => path = "/secret".toList ∧ secret.isSome
  fread := fun path size => if path = "/secret".toList then (secret.getD []).take size else []
  files := fun path => if path = "/secret".toList then secret else none
  junk := ⟨'?', 0⟩
  location := ⟨[], 0, 0⟩
  fuel := 100

def escapingRequest : RawRequest where
  request_method := "GET".toList
  uri := "/..%2f..\\%2e%2e//secret".toList
  http_version := "1.1".toList
  remote_ip := 0x7f000001

lemma hostWith_agrees (secret : Option Text) {updates : Prop} (hupdates : ¬ updates) :
    (hostWith none).AgreesOn (hostWith secret) (hostWith none).Serves updates := by
  have hother : ∀ path, (hostWith none).Serves path → path ≠ "/secret".toList := by
    rintro path (hwithin | rfl)
    · rintro rfl
      exact absurd hwithin (by decide)
    · decide
  refine ⟨rfl, ?_, ?_, ?_, ?_, fun h => absurd h hupdates⟩
  all_goals
    intro path hpath
    simp only [hostWith, hother path hpath, false_and, if_false]

end PerVERT
