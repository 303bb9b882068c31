import PerVERT.Server.Layers

/-!
# The server over many requests

To its clients the server is a register of traces: an update writes the trace of an executable, the
list names the executables that have one, and every other handler reads one trace.

* `Registry` — the register, with the number of its writes; `Registry.next`, `Registry.Answers` —
  what a request does to it, and how it is answered.
* `registryAfter` — the register after some requests; **`registryAfter_trace`** — it holds the trace
  of the last update.
* `Refines` — a server that holds what the register says, with one trace for each executable and
  every earlier one deleted once.
* `gives_handlers` — the handlers, one by one; **`session_refines`** — whatever the requests are,
  the server answers them as the register does.
-/

namespace PerVERT

/-! ## The register -/

/-- A request, and the system when it is handled. -/
structure Incoming where
  host : Host
  info : RequestInfo

/-- An answer, as it is written. -/
inductive Reply
  | status (code : ℕ)
  | ok (ct : ContentType) (data : Text)
  deriving DecidableEq, Repr

/-- What `writeStatusAndEnd` and `write200Response` write. -/
def Reply.written : Reply → List Written
  | .status code => (statusLine code).toList.map (⟨·, true⟩) ++ [⟨"\r\n".toList, false⟩]
  | .ok ct data => [⟨"HTTP/1.1 200 OK\r\n".toList, true⟩, ⟨headers ct data.length, false⟩,
      ⟨data, false⟩, ⟨"\r\n".toList, false⟩]

/-- The query data of a request. -/
def Incoming.query (r : Incoming) : Option QueryData :=
  match r.info.query_string with
  | none => none
  | some q =>
      match parseQuery r.host.fuel q with
      | .ok query => query
      | .error _ => none

/-- The executable that an update is about, and the trace that it builds. -/
def Incoming.update (r : Incoming) : Option (Text × Trace) :=
  if r.info.uri = "/pp/update".toList then
    match r.query with
    | some qd =>
        if qd.exists_ "exec".toList && qd.exists_ "logs".toList then
          match buildTrace r.host.fuel r.host.junk r.host.location r.host.files
              (qd.get "logs".toList) with
          | .ok t => some (qd.get "exec".toList, t)
          | .error _ => none
        else none
    | none => none
  else none

/-- The traces, by executable, and how many updates there were. -/
structure Registry where
  trace : Text → Option Trace
  changes : ℕ

def Registry.empty : Registry := ⟨fun _ => none, 0⟩

/-- What a request does. -/
def Registry.next (reg : Registry) (r : Incoming) : Registry :=
  match r.update with
  | some (exec, t) => ⟨Function.update reg.trace exec (some t), reg.changes + 1⟩
  | none => reg

/-- The register after some requests. -/
def registryAfter (requests : List Incoming) : Registry := requests.foldl Registry.next .empty

/-- The executables that have a trace, in ascending order. -/
def Registry.Lists (reg : Registry) (execs : List Text) : Prop :=
  (execs.Pairwise fun a b => compare a b = .lt) ∧ ∀ exec, exec ∈ execs ↔ (reg.trace exec).isSome

/-- A handler that answers from one trace. -/
structure Endpoint where
  uri : Text
  /-- What the query has to give. -/
  keys : List Text
  answer : QueryData → Trace → Checked (Option Json)

/-- The handlers that answer from one trace. -/
def endpoints : List Endpoint :=
  [⟨"/f/mem_status".toList, ["exec".toList, "frame".toList, "window".toList], fun query t =>
      Option.map MemStatus.toJson <$>
        f_mem_status t (frameOf query) (atoi (query.get "window".toList))⟩,
    ⟨"/f/counts".toList, ["exec".toList], fun _ t => .ok (some (f_counts t).toJson)⟩,
    ⟨"/f/context_stack".toList, ["exec".toList, "frame".toList], fun query t =>
      Option.map stackJson <$> f_context_stack t (frameOf query)⟩,
    ⟨"/f/context_events".toList, ["exec".toList, "frame".toList], fun query t =>
      Option.map ContextEvents.toJson <$> f_context_events t (frameOf query)⟩,
    ⟨"/f/context_deriv".toList, ["exec".toList, "frame".toList], fun query t =>
      Option.map derivJson <$> f_context_deriv t (frameOf query)⟩,
    ⟨"/f/context_histo".toList, ["exec".toList, "frame".toList], fun query t =>
      Option.map histoJson <$> f_context_histo t (frameOf query)⟩]

/-- The URIs of the handlers. -/
def handlerUris : List Text :=
  ["/ping".toList, "/pp/update".toList, "/pp/list".toList, "/f/status".toList]
    ++ endpoints.map Endpoint.uri

/-- The trace that a query asks about, when it has all the keys and there is one. -/
def Registry.asked (reg : Registry) (keys : List Text) (r : Incoming) :
    Option (QueryData × Trace) :=
  match r.query with
  | some query =>
      if keys.all query.exists_ then (reg.trace (query.get "exec".toList)).map (query, ·)
      else none
  | none => none

/-- The text of a status response. -/
def Registry.statusText (reg : Registry) (host : Host) (exec : Text) : Text :=
  showInt (toInt reg.changes) ++ ' ' ::
    if (reg.trace exec).isNone then "The given executable is not known to Pervert.".toList
    else if host.busy exec then "BUSY".toList
    else "GOOD".toList

/-- How the register answers a request. -/
inductive Registry.Answers (reg : Registry) (r : Incoming) : List Written → Prop
  | ping (huri : r.info.uri = "/ping".toList) :
      Answers reg r (Reply.ok .TEXT_PLAIN "pong".toList).written
  | updated {exec : Text} {t : Trace} (hupdate : r.update = some (exec, t)) :
      Answers reg r (Reply.status (if t.okay then 200 else 500)).written
  | noUpdate (huri : r.info.uri = "/pp/update".toList) (hupdate : r.update = none) :
      Answers reg r (Reply.status 500).written
  | list {execs : List Text} (huri : r.info.uri = "/pp/list".toList) (hlists : reg.Lists execs) :
      Answers reg r (Reply.ok .APP_JSON (r.host.styledWriter (listJson execs))).written
  | status {query : QueryData} (huri : r.info.uri = "/f/status".toList)
      (hquery : r.query = some query) (hexec : query.exists_ "exec".toList) :
      Answers reg r
        (Reply.ok .TEXT_PLAIN (reg.statusText r.host (query.get "exec".toList))).written
  | noStatus (huri : r.info.uri = "/f/status".toList)
      (hquery : ∀ query, r.query = some query → query.exists_ "exec".toList = false) :
      Answers reg r (Reply.status 500).written
  | trace {e : Endpoint} {query : QueryData} {t : Trace} {value : Json} (he : e ∈ endpoints)
      (huri : r.info.uri = e.uri) (hasked : reg.asked e.keys r = some (query, t))
      (hvalue : e.answer query t = .ok (some value)) :
      Answers reg r (Reply.ok .APP_JSON (r.host.styledWriter value)).written
  | refused {e : Endpoint} {query : QueryData} {t : Trace} (he : e ∈ endpoints)
      (huri : r.info.uri = e.uri) (hasked : reg.asked e.keys r = some (query, t))
      (hvalue : e.answer query t = .ok none) : Answers reg r (Reply.status 500).written
  | unasked {e : Endpoint} (he : e ∈ endpoints) (huri : r.info.uri = e.uri)
      (hasked : reg.asked e.keys r = none) : Answers reg r (Reply.status 500).written
  /-- No handler of the register is asked. -/
  | elsewhere {written : List Written} (huri : r.info.uri ∉ handlerUris) : Answers reg r written

/-- **The register holds** the trace of the last update. -/
theorem registryAfter_trace (requests : List Incoming) (exec : Text) :
    (registryAfter requests).trace exec
      = ((requests.filterMap Incoming.update).reverse.find? fun u => u.1 = exec).map Prod.snd := by
  induction requests using List.reverseRecOn with
  | nil => rfl
  | append_singleton requests r ih =>
      rw [registryAfter, List.foldl_append, ← registryAfter]
      simp only [List.foldl_cons, List.foldl_nil, Registry.next]
      cases hupdate : r.update with
      | none => simp [hupdate, ih]
      | some u =>
          simp only [List.filterMap_append, List.filterMap_cons, hupdate, List.filterMap_nil,
            List.reverse_append, List.reverse_singleton, List.singleton_append]
          by_cases hexec : u.1 = exec
          · simp [hexec]
          · simp [hexec, Function.update_of_ne (Ne.symm hexec), ih]

/-! ## The server's traces -/

/-- The server holds what the register says. -/
structure Refines (server : ServerState) (reg : Registry) : Prop where
  unknown : ∀ exec, reg.trace exec = none → server.dms[exec]? = none
  /-- Every trace that was built before was deleted, and is not pointed to. -/
  known : ∀ exec t, reg.trace exec = some t → ∃ n,
    server.dms[exec]? = some ⟨exec, some n, List.replicate n none ++ [some t]⟩
  changes : server.lastChangeID = toInt reg.changes

/-- A server that was just started. -/
def ServerState.start : ServerState where
  dms := {}
  lastChangeID := 0
  serverLog := []

section Refinement

variable {server server' : ServerState} {reg : Registry} {exec : Text} {t : Trace}

lemma refines_start : Refines .start .empty := by
  constructor
  · intro exec _
    simp [ServerState.start]
  · intro exec t h
    cases h
  · simp [ServerState.start, Registry.empty, toInt]

/-- Only the traces and the counter matter. -/
lemma Refines.congr (h : Refines server reg) (hdms : server'.dms = server.dms)
    (hchanges : server'.lastChangeID = server.lastChangeID) : Refines server' reg := by
  constructor
  · rw [hdms]
    exact h.unknown
  · rw [hdms]
    exact h.known
  · rw [hchanges]
    exact h.changes

lemma Refines.isSome (h : Refines server reg) : (reg.trace exec).isSome ↔ exec ∈ server.dms := by
  rw [Std.TreeMap.mem_iff_isSome_getElem?]
  cases htrace : reg.trace exec with
  | none => simp [h.unknown exec htrace]
  | some t =>
      obtain ⟨n, hn⟩ := h.known exec t htrace
      simp [hn]

/-- **The list** of the server is the list of the register. -/
lemma Refines.lists (h : Refines server reg) : reg.Lists server.dms.keys := by
  refine ⟨Std.TreeMap.ordered_keys, fun exec => ?_⟩
  rw [Std.TreeMap.mem_keys, h.isSome]

lemma toInt_add_one (n : ℕ) : toInt (toInt n + 1) = toInt ((n + 1 : ℕ) : ℤ) := by
  simp only [toInt]
  omega

/-- What an update makes of the `DataManager` of an executable. -/
lemma Refines.updated (h : Refines server reg) (exec : Text) (t : Trace) : ∃ n,
    (((server.dms.getD exec ⟨exec, none, []⟩).deleteTrace.storeTrace t)
      = ⟨exec, some n, List.replicate n none ++ [some t]⟩) := by
  rw [Std.TreeMap.getD_eq_getD_getElem?]
  cases htrace : reg.trace exec with
  | none =>
      refine ⟨0, ?_⟩
      simp [h.unknown exec htrace, DataManager.deleteTrace, DataManager.storeTrace]
  | some old =>
      obtain ⟨n, hn⟩ := h.known exec old htrace
      refine ⟨n + 1, ?_⟩
      simp [hn, DataManager.deleteTrace, DataManager.storeTrace, List.replicate_succ']

/-- **An update** of the server is one of the register. -/
lemma Refines.next (h : Refines server reg) {r : Incoming} (hupdate : r.update = some (exec, t))
    {server' : ServerState}
    (hdms : ∃ dm, server'.dms = (server.dms.insert exec dm).insert exec
      ((server.dms.getD exec ⟨exec, none, []⟩).deleteTrace.storeTrace t))
    (hchanges : server'.lastChangeID = toInt (server.lastChangeID + 1)) :
    Refines server' (reg.next r) := by
  obtain ⟨dm, hdms⟩ := hdms
  obtain ⟨n, hn⟩ := h.updated exec t
  have hget : ∀ name, server'.dms[name]? = if name = exec then
      some ⟨exec, some n, List.replicate n none ++ [some t]⟩ else server.dms[name]? := by
    intro name
    rw [hdms, hn]
    simp only [Std.TreeMap.getElem?_insert, Std.LawfulEqCmp.compare_eq_iff_eq, eq_comm (a := exec)]
    split_ifs <;> rfl
  simp only [Registry.next, hupdate]
  constructor
  · intro name hname
    rw [hget]
    by_cases heq : name = exec
    · simp [heq] at hname
    · simp only [heq, if_false]
      exact h.unknown name (by simpa [Function.update_of_ne heq] using hname)
  · intro name t' hname
    rw [hget]
    by_cases heq : name = exec
    · simp only [heq, Function.update_self, Option.some.injEq] at hname
      subst hname heq
      exact ⟨n, by simp⟩
    · simp only [heq, if_false]
      exact h.known name t' (by simpa [Function.update_of_ne heq] using hname)
  · rw [hchanges, h.changes]
    exact toInt_add_one reg.changes

end Refinement

/-! ## The handlers -/

/-- What a handler finds. -/
structure Asked (reg : Registry) (r : Incoming) (s : Exchange) : Prop where
  query : QueryHeld s r.query
  silent : s.written = []
  holds : Refines s.toServerState reg

/-- The request was answered as the register answers it, and the server holds what it says then. -/
def Served (reg : Registry) (r : Incoming) (s : Exchange) : Prop :=
  reg.Answers r s.written ∧ Refines s.toServerState (reg.next r)

/-- The program serves the request, if it returns. -/
def Gives (reg : Registry) (r : Incoming) (x : Program Exchange Unit) (s : Exchange) : Prop :=
  wp x (fun _ => Served reg r) (fun _ _ => True) s

section Handlers

variable {reg : Registry} {r : Incoming} {s : Exchange}

lemma gives_status {code : ℕ} (hsilent : s.written = [])
    (hholds : Refines s.toServerState (reg.next r))
    (hanswers : reg.Answers r (Reply.status code).written) :
    Gives reg r (writeStatusAndEnd code) s := by
  rw [Gives, writeStatusAndEnd, wp_bind, writeStatus]
  simp only [Reply.written] at hanswers
  split
  · next text htext =>
      simp only [wp_modify, writeHeadersEnd, wp_write]
      refine ⟨?_, hholds⟩
      simpa [Exchange.write, hsilent, htext] using hanswers
  · next hnone =>
      simp only [wp_pure, writeHeadersEnd, wp_write]
      refine ⟨?_, hholds⟩
      simpa [Exchange.write, hsilent, hnone] using hanswers

lemma gives_200 {ct : ContentType} {data : Text} (hsilent : s.written = [])
    (hholds : Refines s.toServerState (reg.next r))
    (hanswers : reg.Answers r (Reply.ok ct data).written) :
    Gives reg r (write200Response ct data) s := by
  simp only [Gives, write200Response, wp_bind,
    wp_writeStatus (show statusLine 200 = some _ from rfl), wp_write]
  refine ⟨?_, hholds⟩
  simpa [Exchange.write, Reply.written, hsilent] using hanswers

lemma update_eq_none (h : r.info.uri ≠ "/pp/update".toList) : r.update = none := by
  rw [Incoming.update, if_neg h]

lemma next_of_update_none (h : r.update = none) : reg.next r = reg := by
  simp only [Registry.next, h]

/-- Where no update is asked for, the register stays. -/
lemma Asked.stays (h : Asked reg r s) (hupdate : r.update = none) :
    Refines s.toServerState (reg.next r) := by
  rw [next_of_update_none hupdate]
  exact h.holds

/-- **A handler that answers from one trace.** -/
lemma gives_endpoint (h : Asked reg r s) {e : Endpoint} (he : e ∈ endpoints)
    (huri : r.info.uri = e.uri) (hupdate : r.update = none) :
    Gives reg r (withTrace e.keys fun query t => respond r.host (e.answer query t)) s := by
  have hstays := h.stays hupdate
  rw [Gives, withTrace, wp_bind, wp_getQuery h.query]
  cases hquery : r.query with
  | none =>
      have hasked : reg.asked e.keys r = none := by simp only [Registry.asked, hquery]
      exact gives_status h.silent hstays (.unasked he huri hasked)
  | some query =>
      simp only
      split_ifs with hkeys
      · rw [wp_bind, wp_get]
        cases htrace : reg.trace (query.get "exec".toList) with
        | none =>
            have hasked : reg.asked e.keys r = none := by
              simp only [Registry.asked, hquery, hkeys, if_true, htrace, Option.map_none]
            rw [h.holds.unknown _ htrace]
            exact gives_status h.silent hstays (.unasked he huri hasked)
        | some t =>
            have hasked : reg.asked e.keys r = some (query, t) := by
              simp only [Registry.asked, hquery, hkeys, if_true, htrace, Option.map_some]
            obtain ⟨n, hn⟩ := h.holds.known _ t htrace
            have hserved : DataManager.served ⟨query.get "exec".toList, some n,
                List.replicate n none ++ [some t]⟩ = .of t := by
              simp [DataManager.served, readThrough]
            simp only [hn, hserved, respond, wp_bind]
            refine wp_check.mpr ⟨fun value hvalue => ?_, fun _ _ => trivial⟩
            cases value with
            | none => exact gives_status h.silent hstays (.refused he huri hasked hvalue)
            | some value => exact gives_200 h.silent hstays (.trace he huri hasked hvalue)
      · have hasked : reg.asked e.keys r = none := by
          simp only [Registry.asked, hquery]
          exact if_neg hkeys
        exact gives_status h.silent hstays (.unasked he huri hasked)

lemma gives_poll {text : String} (h : Asked reg r s)
    (hupdate : r.update = none) (hanswers : reg.Answers r
      (Reply.ok .TEXT_PLAIN (showInt (toInt reg.changes) ++ ' ' :: text.toList)).written) :
    Gives reg r (PervertLayer.writePollResponse text) s := by
  rw [Gives, PervertLayer.writePollResponse, wp_bind, wp_get, h.holds.changes]
  exact gives_200 h.silent (h.stays hupdate) hanswers

/-- **A status request.** -/
lemma gives_f_status (h : Asked reg r s) (huri : r.info.uri = "/f/status".toList)
    (hupdate : r.update = none) : Gives reg r (PervertLayer.f_status r.host) s := by
  have hstays := h.stays hupdate
  rw [Gives, PervertLayer.f_status, wp_bind, wp_getQuery h.query]
  cases hquery : r.query with
  | none => exact gives_status h.silent hstays (.noStatus huri (by simp [hquery]))
  | some query =>
      simp only
      by_cases hexec : query.exists_ "exec".toList = true
      · have hanswers : reg.Answers r (Reply.ok .TEXT_PLAIN
            (reg.statusText r.host (query.get "exec".toList))).written :=
          .status huri hquery hexec
        have hcontains : s.dms.contains (query.get "exec".toList)
            = (reg.trace (query.get "exec".toList)).isSome := by
          rw [Bool.eq_iff_iff, h.holds.isSome]
          exact Std.TreeMap.contains_iff_mem
        rw [if_pos hexec, wp_bind, wp_get, hcontains]
        rw [Registry.statusText] at hanswers
        cases htrace : reg.trace (query.get "exec".toList) with
        | none =>
            simp only [htrace, Option.isNone_none, if_true] at hanswers
            exact gives_poll h hupdate hanswers
        | some t =>
            simp only [htrace, Option.isNone_some, Bool.false_eq_true, if_false] at hanswers
            simp only [Option.isSome_some, if_true]
            split_ifs with hbusy
            · rw [if_pos hbusy] at hanswers
              exact gives_poll h hupdate hanswers
            · rw [if_neg hbusy] at hanswers
              exact gives_poll h hupdate hanswers
      · rw [if_neg hexec]
        refine gives_status h.silent hstays (.noStatus huri fun query' hquery' => ?_)
        rw [hquery] at hquery'
        cases hquery'
        simpa using hexec

/-- **An update.** -/
lemma gives_pp_update (h : Asked reg r s) (huri : r.info.uri = "/pp/update".toList) :
    Gives reg r (PervertLayer.pp_update r.host) s := by
  rw [Gives, PervertLayer.pp_update, wp_bind, wp_getQuery h.query]
  have hupdate := Incoming.update.eq_1 r
  rw [if_pos huri] at hupdate
  cases hquery : r.query with
  | none =>
      simp only [hquery] at hupdate
      exact gives_status h.silent (h.stays hupdate) (.noUpdate huri hupdate)
  | some query =>
      simp only [hquery] at hupdate ⊢
      split_ifs with hkeys
      · rw [if_pos hkeys] at hupdate
        simp only [wp_bind, wp_get, wp_modify]
        refine wp_check.mpr ⟨?_, fun _ _ => trivial⟩
        rintro ⟨success, dm⟩ hok
        obtain ⟨t, hbuild, rfl, rfl⟩ := update_eq_ok.mp hok
        simp only [hbuild] at hupdate
        simp only [wp_bind, wp_modify]
        have hanswers : reg.Answers r (Reply.status (if t.okay then 200 else 500)).written :=
          .updated hupdate
        split_ifs at hanswers ⊢
        · exact gives_status h.silent (h.holds.next hupdate ⟨_, rfl⟩ rfl) hanswers
        · exact gives_status h.silent (h.holds.next hupdate ⟨_, rfl⟩ rfl) hanswers
      · rw [if_neg hkeys] at hupdate
        exact gives_status h.silent (h.stays hupdate) (.noUpdate huri hupdate)

/-- **Every handler** of the register gives its answer, and other URIs go to the next layer. -/
theorem gives_handlers (h : Asked reg r s) (next : Program Exchange Unit) :
    (r.info.uri ∉ handlerUris ∧ PervertLayer.handle r.host r.info next = next) ∨
      Gives reg r (PervertLayer.handle r.host r.info next) s := by
  have hask : ∀ {e : Endpoint} {x : Program Exchange Unit}, e ∈ endpoints →
      e.uri ≠ "/pp/update".toList →
      x = withTrace e.keys (fun query t => respond r.host (e.answer query t)) →
      r.info.uri = e.uri → Gives reg r x s := by
    intro e x he hne hx huri
    rw [hx]
    exact gives_endpoint h he huri (update_eq_none (huri ▸ hne))
  unfold PervertLayer.handle
  split_ifs with hping hupdate hlist hstatus hmem hcounts hstack hevents hderiv hhisto
  · have hnone := update_eq_none (r := r) (by rw [hping]; decide)
    exact Or.inr (gives_200 h.silent (h.stays hnone) (.ping hping))
  · exact Or.inr (gives_pp_update h hupdate)
  · have hnone := update_eq_none (r := r) (by rw [hlist]; decide)
    refine Or.inr ?_
    rw [Gives, PervertLayer.pp_list, wp_bind, wp_get]
    exact gives_200 h.silent (h.stays hnone) (.list hlist h.holds.lists)
  · have hnone := update_eq_none (r := r) (by rw [hstatus]; decide)
    exact Or.inr (gives_f_status h hstatus hnone)
  · exact Or.inr (hask (List.getElem_mem (n := 0) (by decide)) (by decide) rfl hmem)
  · exact Or.inr (hask (List.getElem_mem (n := 1) (by decide)) (by decide) rfl hcounts)
  · exact Or.inr (hask (List.getElem_mem (n := 2) (by decide)) (by decide) rfl hstack)
  · exact Or.inr (hask (List.getElem_mem (n := 3) (by decide)) (by decide) rfl hevents)
  · exact Or.inr (hask (List.getElem_mem (n := 4) (by decide)) (by decide) rfl hderiv)
  · exact Or.inr (hask (List.getElem_mem (n := 5) (by decide)) (by decide) rfl hhisto)
  · refine Or.inl ⟨?_, rfl⟩
    simp only [handlerUris, endpoints, List.map_cons, List.map_nil, List.mem_append, List.mem_cons,
      List.not_mem_nil, not_or, or_false]
    exact ⟨⟨hping, hupdate, hlist, hstatus⟩, hmem, hcounts, hstack, hevents, hderiv, hhisto⟩

end Handlers

/-! ## The layers -/

/-- The metadata, when the request has gone through so many layers. -/
def QueryAt (r : Incoming) : ℕ → Exchange → Prop
  | 0, s | 1, s => s.metadata "query".toList = none
  | 2, s => QueryHeld s r.query
  | _ + 3, _ => r.info.uri ∉ handlerUris

/-- No answer so far, and the server holds what the register says. -/
structure Comes (reg : Registry) (r : Incoming) (l : ℕ) (s : Exchange) : Prop where
  currentLayer : s.currentLayer = l
  silent : s.written = []
  holds : Refines s.toServerState reg
  query : QueryAt r l s

section Layers

variable {reg : Registry} {r : Incoming} {s : Exchange} {l : ℕ}

/-- What is kept by every layer. -/
abbrev Passes (reg : Registry) (r : Incoming) : ℕ → Layer → Prop :=
  LayerKeeps (Comes reg r) (fun _ => Served reg r) fun _ _ => True

lemma passes_logger : Passes reg r 0 ⟨"LoggerLayer".toList, LoggerLayer.handle r.host,
    LoggerLayer.afterwards r.host r.info⟩ := by
  intro next hnext s hs
  show wp (LoggerLayer.handle r.host next) _ _ _
  simp only [LoggerLayer.handle, wp_bind, wp_create, wp_modify]
  refine hnext _ ⟨by simp [Exchange.enter, Exchange.setMetadata, hs.currentLayer], hs.silent,
    hs.holds, ?_⟩
  rw [QueryAt, metadata_setMetadata_of_ne query_ne_logger]
  exact hs.query

lemma passes_query : Passes reg r 1 ⟨"QueryLayer".toList, QueryLayer.handle r.host r.info,
    QueryLayer.afterwards⟩ := by
  intro next hnext s hs
  have hcurrent : s.currentLayer + 1 = 2 := by rw [hs.currentLayer]
  show wp (QueryLayer.handle r.host r.info next) _ _ _
  unfold QueryLayer.handle
  split
  · next hnone =>
      refine hnext _ ⟨hcurrent, hs.silent, hs.holds, ?_⟩
      simp only [QueryAt, Incoming.query, hnone]
      exact hs.query
  · next q hq =>
      simp only [wp_bind, wp_create]
      refine wp_check.mpr ⟨fun query hquery => ?_, fun _ _ => trivial⟩
      cases query with
      | some data =>
          simp only [wp_bind, wp_modify, store_created]
          refine hnext _ ⟨hcurrent, hs.silent, hs.holds, ?_⟩
          simp only [QueryAt, Incoming.query, hq, hquery]
          exact ⟨_, metadata_setMetadata_self, List.getElem?_concat_length⟩
      | none =>
          simp only [wp_bind, wp_modify, destroy_created]
          refine hnext _ ⟨hcurrent, hs.silent, hs.holds, ?_⟩
          simp only [QueryAt, Incoming.query, hq, hquery]
          exact hs.query

lemma passes_pervert : Passes reg r 2 ⟨"PervertLayer".toList, PervertLayer.handle r.host r.info,
    pure ()⟩ := by
  intro next hnext s hs
  have hcurrent : s.currentLayer + 1 = 3 := by rw [hs.currentLayer]
  show wp (PervertLayer.handle r.host r.info next) _ _ _
  have hasked : Asked reg r (s.enter ⟨"PervertLayer".toList,
      PervertLayer.handle r.host r.info, pure ()⟩) := ⟨hs.query, hs.silent, hs.holds⟩
  rcases gives_handlers hasked next with ⟨huri, hpass⟩ | hgives
  · rw [hpass]
    exact hnext _ ⟨hcurrent, hs.silent, hs.holds, huri⟩
  · exact hgives

/-- What is written elsewhere changes nothing that the register tells. -/
lemma served_elsewhere (huri : r.info.uri ∉ handlerUris) (hholds : Refines s.toServerState reg) :
    Served reg r s := by
  refine ⟨.elsewhere huri, ?_⟩
  rw [next_of_update_none (update_eq_none fun h => huri (by rw [h]; simp [handlerUris]))]
  exact hholds

lemma passes_static : Passes reg r 3 ⟨"StaticLayer".toList, StaticLayer.handle r.host r.info,
    pure ()⟩ := by
  intro next hnext s hs
  have huri : r.info.uri ∉ handlerUris := hs.query
  have hanswered : ∀ {s' : Exchange}, Answered (s.enter ⟨"StaticLayer".toList,
      StaticLayer.handle r.host r.info, pure ()⟩) s' → Served reg r s' := by
    rintro _ ⟨ws, -, rfl⟩
    exact served_elsewhere huri hs.holds
  show wp (StaticLayer.handle r.host r.info next) _ _ _
  unfold StaticLayer.handle
  split_ifs with hget
  · rw [wp_bind]
    refine wp_check.mpr ⟨fun last _ => ?_, fun _ _ => trivial⟩
    simp only
    split_ifs
    · exact wp_writeStatusAndEnd rfl fun _ => hanswered
    · exact trivial
    · exact wp_write200Response fun _ => hanswered
    · exact wp_writeStatusAndEnd rfl fun _ => hanswered
    · exact wp_writeStatusAndEnd rfl fun _ => hanswered
    · exact wp_writeStatusAndEnd rfl fun _ => hanswered
  · refine hnext _ ⟨?_, hs.silent, hs.holds, huri⟩
    simp [Exchange.enter, hs.currentLayer]

lemma served_deleteMetadata (h : Served reg r s) (p : Option ℕ) :
    wp (deleteMetadata p) (fun _ => Served reg r) (fun _ _ => True) s := by
  cases p with
  | none => exact h
  | some p => exact h

lemma served_logger (h : Served reg r s) : wp (LoggerLayer.afterwards r.host r.info)
    (fun _ => Served reg r) (fun _ _ => True) s := by
  rw [LoggerLayer.afterwards, wp_bind, wp_getMetadata, wp_bind, wp_deref]
  refine wp_check.mpr ⟨fun m _ => ?_, fun _ _ => trivial⟩
  cases m with
  | query _ => exact trivial
  | logger starttime =>
      simp only [wp_bind]
      refine wp_mono (served_deleteMetadata h _) (fun _ s' h' => ?_) fun _ _ _ => trivial
      exact ⟨h'.1, h'.2.congr rfl rfl⟩

/-- `afterwards` only deletes metadata, and writes to the log of the server. -/
lemma served_afterwards : Triple (Served reg r) (Server.afterwards (layers r.host r.info))
    (fun _ => Served reg r) fun _ _ => True := by
  intro s hs
  simp only [layers, Server.afterwards, wp_bind, wp_pure]
  refine wp_mono (?_ : wp QueryLayer.afterwards (fun _ => Served reg r) (fun _ _ => True) s)
    (fun _ s' h' => ?_) fun _ _ _ => trivial
  · exact served_deleteMetadata hs _
  · exact wp_mono (served_logger h') (fun _ _ h => h) fun _ _ _ => trivial

/-- **One request**, from any state of the server that the register describes. -/
theorem handleRequest_serves {server : ServerState} (h : Refines server reg) {result : ℤ}
    (hrun : Server.handleRequest (layers r.host r.info) .MG_NEW_REQUEST (.start server)
      = (.ok result, s)) : Served reg r s := by
  have hpasses : ∀ l layer, (layers r.host r.info)[l]? = some layer → Passes reg r l layer :=
    forall_of_four passes_logger passes_query passes_pervert passes_static
  have hend : ∀ s, Comes reg r (layers r.host r.info).length s →
      Served reg r { s with mg_success := 0 } := by
    intro s hs
    exact served_elsewhere hs.query hs.holds
  have hnext : Triple (Comes reg r 0) (Server.next (layers r.host r.info) 5)
      (fun _ => Served reg r) fun _ _ => True :=
    next_triple hpasses hend (fun _ _ hs => hs.currentLayer) (Nat.zero_le _) (Nat.lt_succ_self _)
  have hserved : Triple (Served reg r) (Program.get >>= fun s => pure s.mg_success)
      (fun _ => Served reg r) fun _ _ => True := fun s hs => hs
  have hhandled := hnext.bind fun _ => served_afterwards.bind fun _ => hserved
  have hstart : Comes reg r 0 (.start server) := ⟨rfl, rfl, h, rfl⟩
  exact (hhandled.run hstart).1 result s hrun

end Layers

/-! ## Sessions -/

/-- The server handles a request, and is done with it before the next one comes.  The second
component is the answer that was seen. -/
def sessionStep (server : ServerState) (r : Incoming × List Written) : Option ServerState :=
  match Server.handleRequest (layers r.1.host r.1.info) .MG_NEW_REQUEST (.start server) with
  | (.ok _, s) => if s.written = r.2 then some s.toServerState else none
  | (.error _, _) => none

/-- **The server answers as the register does.**  After any requests that it has handled one after
the other, it holds what the register says: one trace for each executable that was ever updated, the
last one built, and the earlier ones deleted.  Each request got the answer of the register at that
time, byte for byte, and none but the updates has changed anything. -/
theorem session_refines {history : List (Incoming × List Written)} {server : ServerState}
    (hrun : run sessionStep .start history = some server) :
    Refines server (registryAfter (history.map Prod.fst)) ∧
      EachStep (fun before r => (registryAfter (before.map Prod.fst)).Answers r.1 r.2) history := by
  refine run_induction (I := fun history server =>
    Refines server (registryAfter (history.map Prod.fst)) ∧
      EachStep (fun before r => (registryAfter (before.map Prod.fst)).Answers r.1 r.2) history)
    ⟨refines_start, EachStep.nil⟩ (fun {history server r server'} _ ih hstep => ?_) hrun
  rw [sessionStep] at hstep
  split at hstep
  · next result s hrequest =>
      obtain ⟨hanswers, hholds⟩ := handleRequest_serves ih.1 hrequest
      split_ifs at hstep with hwritten
      cases hstep
      rw [hwritten] at hanswers
      refine ⟨?_, eachStep_append.mpr ⟨ih.2, hanswers⟩⟩
      rw [List.map_append, registryAfter, List.foldl_append, ← registryAfter]
      exact hholds
  · cases hstep

/-- A host with the files of one run. -/
def runHost : Host :=
  { bareHost with
    files := fun path =>
      if path = "run.line".toList then some goodLines
      else if path = "run.trace".toList then some goodTrace
      else none }

def requestOf (uri : String) (query_string : Option Text) : RequestInfo where
  request_method := "GET".toList
  uri := uri.toList
  http_version := "1.1".toList
  query_string := query_string
  remote_ip := 0x7f000001

/-- A question about an executable, an update of it, and the question again. -/
def updateSession : List (Incoming × List Written) :=
  [(⟨runHost, requestOf "/f/counts" (some "exec=a.out".toList)⟩, (Reply.status 500).written),
    (⟨runHost, requestOf "/pp/update" (some "exec=a.out&logs=run".toList)⟩,
      (Reply.status 200).written),
    (⟨runHost, requestOf "/f/counts" (some "exec=a.out".toList)⟩,
      (Reply.ok .APP_JSON []).written)]

/-- The server goes through this session as the register does. -/
theorem updateSession_refines : ∃ server,
    Refines server (registryAfter (updateSession.map Prod.fst)) ∧
      EachStep (fun before r => (registryAfter (before.map Prod.fst)).Answers r.1 r.2)
        updateSession := by
  have hsome : (run sessionStep .start updateSession).isSome = true := by decide +kernel
  obtain ⟨server, hserver⟩ := Option.isSome_iff_exists.mp hsome
  exact ⟨server, session_refines hserver⟩

end PerVERT
