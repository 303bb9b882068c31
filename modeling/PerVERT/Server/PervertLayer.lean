import PerVERT.Backend.ContextViews
import PerVERT.Server.Response

/-!
# `PervertLayer`

The handlers behind the URIs.  Each checks what the query gives, and ends in one answer.

* `Host` — what the layers ask the system for, with every answer it may give.
* `withTrace`, `respond` — what the handlers that read a trace have in common; `ping` ..
  `f_context_histo` and `PervertLayer.handle` — as the code runs them.
* `Replied` — one answer was written, and nothing else about the request has changed.
* `Replies` — a program ends so, or stops where it is not expected to return; one rule for each
  handler, and **`PervertLayer.replies`** for them all.
-/

namespace PerVERT

/-! ## Data -/

/-- `Json::Value`.  The members of an object stand in the order of their keys. -/
inductive Json
  | int (value : ℤ)
  | uint (value : ℕ)
  | bool (value : Bool)
  | string (value : Text)
  | array (values : List Json)
  | object (members : List (Text × Json))

/-- The system around the layers. -/
structure Host where
  /-- `Json::StyledWriter::write`. -/
  styledWriter : Json → Text
  /-- Whether `pthread_mutex_trylock` finds the lock of an executable taken. -/
  busy : Text → Bool
  /-- The two answers of `gettimeofday`. -/
  starttime : Timeval
  currentTime : Timeval
  /-- `_httproot` of the static layer. -/
  httproot : Text
  /-- `access(f, R_OK) == 0`. -/
  access : Text → Bool
  /-- What `st_size` holds after `stat`, which leaves it alone when it fails. -/
  st_size : Text → ℤ
  /-- `fopen(f, "r") != NULL`. -/
  fopen : Text → Bool
  /-- What `fread` reads of a file when it is asked for so much. -/
  fread : Text → ℕ → Text
  /-- What an update finds, and the rounds its parsers are given. -/
  files : Files
  junk : Junk
  location : Location
  fuel : ℕ

/-- `atoi`, through `strtol`. -/
def atoi (s : Text) : ℤ :=
  let (negative, cs) := takeSign (s.dropWhile isSpace)
  let value : ℤ := Nat.ofDigitChars 10 (cs.takeWhile Char.isDigit) 0
  let value := if negative then -value else value
  toInt (max (-2 ^ 63) (min (2 ^ 63 - 1) value))

/-! ## JSON -/

/-- A member whose value is an `int`. -/
def intMember (name : String) (value : ℤ) : Text × Json := (name.toList, .int value)

def Counts.toJson (c : Counts) : Json :=
  .object [intMember "event" c.event, intMember "free" c.free, intMember "malloc" c.malloc,
    intMember "max_addr" c.max_addr, intMember "read" c.read, intMember "write" c.write]

def MemStatus.toJson (m : MemStatus) : Json :=
  .object
    [("addr".toList, .array (m.addr.map .int)), ("events".toList, .array (m.events.map .string)),
      ("mask".toList, .array (m.mask.map .bool)),
      ("regions".toList, .array (m.regions.map fun r =>
        .object [intMember "begin" r.1, intMember "end" r.2]))]

def stackJson (stack : List (Text × UInt32)) : Json :=
  .object [("stack".toList, .array (stack.map fun f =>
    .object [("file".toList, .string f.1), ("line".toList, .uint f.2.toNat)]))]

def ContextEvents.toJson (c : ContextEvents) : Json :=
  .object [("events".toList, .array (c.events.map fun e =>
    .object [intMember "addr" e.1, intMember "index" e.2])), ("type".toList, .string c.type)]

def derivJson (events : List (ℤ × ℤ)) : Json :=
  .object [("events".toList, .array (events.map fun e =>
    .object [intMember "delta" e.2, intMember "index" e.1]))]

def histoJson (histogram : List ℤ) : Json :=
  .object [("histo".toList, .array (histogram.map .int))]

def listJson (execs : List Text) : Json :=
  .object [intMember "count" (toInt execs.length), ("execs".toList, .array (execs.map .string))]

/-! ## The handlers -/

section Handlers

variable (host : Host)

/-- `JSONLayer::writeJSONResponse`. -/
def writeJSONResponse (value : Json) : Program Exchange Unit :=
  write200Response .APP_JSON (host.styledWriter value)

/-- `(QueryData*) res->getMetadata("query")`, and what it points at. -/
def getQuery : Program Exchange (Option QueryData) := do
  match ← getMetadata "query".toList with
  | none => pure none
  | some p =>
      match ← deref (some p) with
      | .query query => pure (some query)
      | .logger _ => Program.check (.error .outOfRange)

/-- The checks of a handler that reads a trace: the keys of the query, `exec` first, and the
executable. -/
def withTrace (keys : List Text) (answer : QueryData → Trace → Program Exchange Unit) :
    Program Exchange Unit := do
  match ← getQuery with
  | none => writeStatusAndEnd 500
  | some query =>
      if keys.all query.exists_ then
        let s ← Program.get
        match s.dms[query.get "exec".toList]? with
        | none => writeStatusAndEnd 500
        | some dm =>
            match dm.served with
            | .of trace => answer query trace
            | _ => Program.check (.error .outOfRange)
      else writeStatusAndEnd 500

/-- The end of a handler that checks a frame. -/
def respond (answer : Checked (Option Json)) : Program Exchange Unit := do
  match ← Program.check answer with
  | none => writeStatusAndEnd 500
  | some value => writeJSONResponse host value

/-- `frame` of a query. -/
def frameOf (query : QueryData) : ℤ := atoi (query.get "frame".toList)

def PervertLayer.f_counts : Program Exchange Unit :=
  withTrace ["exec".toList] fun _ trace => writeJSONResponse host (PerVERT.f_counts trace).toJson

def PervertLayer.f_mem_status : Program Exchange Unit :=
  withTrace ["exec".toList, "frame".toList, "window".toList] fun query trace =>
    respond host (Option.map MemStatus.toJson <$>
      PerVERT.f_mem_status trace (frameOf query) (atoi (query.get "window".toList)))

def PervertLayer.f_context_stack : Program Exchange Unit :=
  withTrace ["exec".toList, "frame".toList] fun query trace =>
    respond host (Option.map stackJson <$> PerVERT.f_context_stack trace (frameOf query))

def PervertLayer.f_context_events : Program Exchange Unit :=
  withTrace ["exec".toList, "frame".toList] fun query trace =>
    respond host (Option.map ContextEvents.toJson <$>
      PerVERT.f_context_events trace (frameOf query))

def PervertLayer.f_context_deriv : Program Exchange Unit :=
  withTrace ["exec".toList, "frame".toList] fun query trace =>
    respond host (Option.map derivJson <$> PerVERT.f_context_deriv trace (frameOf query))

def PervertLayer.f_context_histo : Program Exchange Unit :=
  withTrace ["exec".toList, "frame".toList] fun query trace =>
    respond host (Option.map histoJson <$> PerVERT.f_context_histo trace (frameOf query))

/-- `PervertLayer::ping`. -/
def PervertLayer.ping : Program Exchange Unit := write200Response .TEXT_PLAIN "pong".toList

/-- `PervertLayer::writePollResponse`. -/
def PervertLayer.writePollResponse (text : String) : Program Exchange Unit := do
  let s ← Program.get
  write200Response .TEXT_PLAIN (showInt s.lastChangeID ++ ' ' :: text.toList)

/-- `PervertLayer::f_status`. -/
def PervertLayer.f_status : Program Exchange Unit := do
  match ← getQuery with
  | none => writeStatusAndEnd 500
  | some query =>
      if query.exists_ "exec".toList then
        let s ← Program.get
        if s.dms.contains (query.get "exec".toList) then
          if host.busy (query.get "exec".toList) then writePollResponse "BUSY"
          else writePollResponse "GOOD"
        else writePollResponse "The given executable is not known to Pervert."
      else writeStatusAndEnd 500

/-- `PervertLayer::logChange`. -/
def Exchange.logChange (s : Exchange) : Exchange :=
  { s with lastChangeID := toInt (s.lastChangeID + 1) }

/-- `_dms[exec] = dm`. -/
def Exchange.setManager (exec : Text) (dm : DataManager) (s : Exchange) : Exchange :=
  { s with dms := s.dms.insert exec dm }

/-- `PervertLayer::pp_update`. -/
def PervertLayer.pp_update : Program Exchange Unit := do
  match ← getQuery with
  | none => writeStatusAndEnd 500
  | some query =>
      if query.exists_ "exec".toList && query.exists_ "logs".toList then
        let exec := query.get "exec".toList
        let s ← Program.get
        let dm := s.dms.getD exec ⟨exec, none, []⟩
        Program.modify (Exchange.setManager exec dm)
        let (success, dm) ← Program.check
          (dm.update host.fuel host.junk host.location host.files (query.get "logs".toList))
        Program.modify (Exchange.setManager exec dm)
        Program.modify Exchange.logChange
        if success then writeStatusAndEnd 200 else writeStatusAndEnd 500
      else writeStatusAndEnd 500

/-- `PervertLayer::pp_list`. -/
def PervertLayer.pp_list : Program Exchange Unit := do
  let s ← Program.get
  writeJSONResponse host (listJson s.dms.keys)

/-- `PervertLayer::handle`. -/
def PervertLayer.handle (info : RequestInfo) (next : Program Exchange Unit) :
    Program Exchange Unit :=
  if info.uri = "/ping".toList then ping
  else if info.uri = "/pp/update".toList then pp_update host
  else if info.uri = "/pp/list".toList then pp_list host
  else if info.uri = "/f/status".toList then f_status host
  else if info.uri = "/f/mem_status".toList then f_mem_status host
  else if info.uri = "/f/counts".toList then f_counts host
  else if info.uri = "/f/context_stack".toList then f_context_stack host
  else if info.uri = "/f/context_events".toList then f_context_events host
  else if info.uri = "/f/context_deriv".toList then f_context_deriv host
  else if info.uri = "/f/context_histo".toList then f_context_histo host
  else next

end Handlers

/-! ## One answer each -/

/-- One answer was written.  Besides, a handler changes what outlives the request. -/
def Replied (s s' : Exchange) : Prop :=
  ∃ ws : List Written, ws.countP Written.isStatus = 1 ∧
    s' = { s with toServerState := s'.toServerState, written := s.written ++ ws }

/-- The query data that a handler finds. -/
def QueryHeld (s : Exchange) : Option QueryData → Prop
  | none => s.metadata "query".toList = none
  | some query => ∃ p, s.metadata "query".toList = some p ∧
      s.objects[p]? = some ⟨.query query, 0⟩

/-- The program replies.  Where it stops instead, `A` does not hold, and no further layer was
reached. -/
def Replies (A : Prop) (x : Program Exchange Unit) (s : Exchange) : Prop :=
  wp x (fun _ s' => Replied s s') (fun _ s' => s'.handled = s.handled ∧ ¬ A) s

section Replies

variable {A : Prop} {host : Host} {s : Exchange} {query : Option QueryData}

lemma replied_of_answered {s' : Exchange} (h : Answered s s') : Replied s s' := by
  obtain ⟨ws, hws, rfl⟩ := h
  exact ⟨ws, hws, rfl⟩

/-- An answer that comes after a change of what outlives the request. -/
lemma replied_of_later {s₁ s' : Exchange} (h : s₁ = { s with toServerState := s₁.toServerState })
    (h' : Answered s₁ s') : Replied s s' := by
  obtain ⟨ws, hws, rfl⟩ := h'
  rw [h]
  exact ⟨ws, hws, rfl⟩

lemma replies_status {code : ℕ} {text : Text} (h : statusLine code = some text) :
    Replies A (writeStatusAndEnd code) s :=
  wp_writeStatusAndEnd h fun _ => replied_of_answered

lemma replies_500 : Replies A (writeStatusAndEnd 500) s := replies_status rfl

lemma replies_200 {ct : ContentType} {data : Text} : Replies A (write200Response ct data) s :=
  wp_write200Response fun _ => replied_of_answered

lemma replies_error {e : Fault} (h : ¬ A) : Replies A (Program.check (.error e)) s := by
  rw [Replies, wp_check_error]
  exact ⟨rfl, h⟩

lemma wp_getQuery (h : QueryHeld s query) {Q : Option QueryData → Exchange → Prop}
    {E : Fault → Exchange → Prop} : wp getQuery Q E s ↔ Q query s := by
  cases query with
  | none =>
      rw [QueryHeld] at h
      rw [getQuery, wp_bind, wp_getMetadata, h]
      exact wp_pure
  | some query =>
      obtain ⟨p, hp, hobject⟩ := h
      have hread : s.read (some p) = .ok (.query query) := by
        simp only [Exchange.read, hobject]
      rw [getQuery, wp_bind, wp_getMetadata, hp]
      show wp (deref (some p) >>= _) Q E s ↔ _
      rw [wp_bind, wp_deref, hread]
      exact wp_pure

/-- The checks of a handler that reads a trace. -/
lemma replies_withTrace {keys : List Text} {answer : QueryData → Trace → Program Exchange Unit}
    (h : QueryHeld s query)
    (hserved : A → ∀ (exec : Text) (dm : DataManager), s.dms[exec]? = some dm →
      ∃ t, dm.served = .of t)
    (hanswer : ∀ (qd : QueryData) (dm : DataManager) (t : Trace), query = some qd →
      keys.all qd.exists_ = true →
      s.dms[qd.get "exec".toList]? = some dm → dm.served = .of t → Replies A (answer qd t) s) :
    Replies A (withTrace keys answer) s := by
  rw [Replies, withTrace, wp_bind, wp_getQuery h]
  cases query with
  | none => exact replies_500
  | some qd =>
      simp only
      split_ifs with hkeys
      · rw [wp_bind, wp_get]
        cases hdm : s.dms[qd.get "exec".toList]? with
        | none => exact replies_500
        | some dm =>
            simp only
            cases hread : dm.served with
            | of t => exact hanswer qd dm t rfl hkeys hdm hread
            | null | deleted =>
                refine replies_error fun hA => ?_
                obtain ⟨t, ht⟩ := hserved hA _ dm hdm
                rw [hread] at ht
                cases ht
      · exact replies_500

/-- The end of a handler that checks a frame. -/
lemma replies_respond {α : Type} {toJson : α → Json} {answer : Checked (Option α)}
    (h : A → ∃ a, answer = .ok a) : Replies A (respond host (Option.map toJson <$> answer)) s := by
  cases answer with
  | error e =>
      refine replies_error fun hA => ?_
      obtain ⟨a, ha⟩ := h hA
      cases ha
  | ok a =>
      cases a with
      | none => exact replies_500
      | some a => exact replies_200

/-- **An update.** -/
lemma replies_pp_update (h : QueryHeld s query)
    (hupdate : A → ∀ qd, query = some qd → ∃ t,
      buildTrace host.fuel host.junk host.location host.files (qd.get "logs".toList) = .ok t) :
    Replies A (PervertLayer.pp_update host) s := by
  rw [Replies, PervertLayer.pp_update, wp_bind, wp_getQuery h]
  cases query with
  | none => exact replies_500
  | some qd =>
      simp only
      split_ifs
      · simp only [wp_bind, wp_get, wp_modify]
        refine wp_check.mpr ⟨?_, fun e he => ⟨rfl, fun hA => ?_⟩⟩
        · rintro ⟨success, dm⟩ -
          simp only [wp_bind, wp_modify]
          split_ifs
          · exact wp_writeStatusAndEnd rfl fun _ h => replied_of_later rfl h
          · exact wp_writeStatusAndEnd rfl fun _ h => replied_of_later rfl h
        · obtain ⟨t, ht⟩ := hupdate hA qd rfl
          rw [DataManager.update, ht] at he
          cases he
      · exact replies_500

lemma replies_poll {text : String} : Replies A (PervertLayer.writePollResponse text) s := by
  rw [Replies, PervertLayer.writePollResponse, wp_bind, wp_get]
  exact replies_200

/-- **A status poll.** -/
lemma replies_f_status (h : QueryHeld s query) : Replies A (PervertLayer.f_status host) s := by
  rw [Replies, PervertLayer.f_status, wp_bind, wp_getQuery h]
  cases query with
  | none => exact replies_500
  | some qd =>
      simp only
      split
      · rw [wp_bind, wp_get]
        split
        · split
          · exact replies_poll
          · exact replies_poll
        · exact replies_poll
      · exact replies_500

end Replies

/-! ## Every handler replies -/

/-- The query data that the query layer publishes for the request. -/
def Published (host : Host) (info : RequestInfo) (query : Option QueryData) : Prop :=
  match info.query_string with
  | none => query = none
  | some q => parseQuery host.fuel q = .ok query

/-- The requests that the layers are expected to return from: a URI, a query string that `int`s can
index, loaded traces that `int`s can describe, a frame in range, an update that builds its trace,
and files that have a size. -/
structure Answerable (host : Host) (info : RequestInfo) (server : ServerState) : Prop where
  uri : info.uri ≠ []
  query : ∀ q, info.query_string = some q → q.length < 2 ^ 31 ∧ q.length < host.fuel
  loaded : ∀ (exec : Text) (dm : DataManager), server.dms[exec]? = some dm →
    ∃ t, dm.served = .of t ∧ Loaded t ∧ Fits t
  frame : ∀ (qd : QueryData) (dm : DataManager) (t : Trace), Published host info (some qd) →
    qd.exists_ "frame".toList = true → server.dms[qd.get "exec".toList]? = some dm →
    dm.served = .of t → InRange t (frameOf qd)
  update : info.uri = "/pp/update".toList → ∀ qd, Published host info (some qd) → ∃ t,
    buildTrace host.fuel host.junk host.location host.files (qd.get "logs".toList) = .ok t
  size : ∀ path, 0 ≤ host.st_size path

section Dispatch

variable {host : Host} {info : RequestInfo} {server : ServerState} {s : Exchange}
  {query : Option QueryData}

/-- A handler whose answer is there for a frame in range. -/
lemma replies_frame {α : Type} {keys : List Text} {toJson : α → Json}
    {answer : QueryData → Trace → Checked (Option α)} (h : QueryHeld s query)
    (hpublished : Published host info query) (hdms : s.dms = server.dms)
    (hkeys : "frame".toList ∈ keys)
    (hanswer : ∀ qd t, Loaded t → Fits t → InRange t (frameOf qd) →
      ∃ a, answer qd t = .ok (some a)) :
    Replies (Answerable host info server)
      (withTrace keys fun qd t => respond host (Option.map toJson <$> answer qd t)) s := by
  refine replies_withTrace h (fun hA exec dm hdm => ?_) fun qd dm t hqd hall hdm ht => ?_
  · rw [hdms] at hdm
    obtain ⟨t, ht, -⟩ := hA.loaded exec dm hdm
    exact ⟨t, ht⟩
  · subst hqd
    rw [hdms] at hdm
    refine replies_respond fun hA => ?_
    obtain ⟨t', ht', hloaded, hfits⟩ := hA.loaded _ dm hdm
    rw [ht] at ht'
    cases ht'
    have hrange := hA.frame qd dm t hpublished (List.all_eq_true.mp hall _ hkeys) hdm ht
    obtain ⟨a, ha⟩ := hanswer qd t hloaded hfits hrange
    exact ⟨some a, ha⟩

/-- A handler is found by the URI, or by one of the comparisons behind. -/
lemma replies_ite {A c : Prop} [Decidable c] {next x y : Program Exchange Unit}
    (hx : c → x = next ∨ Replies A x s) (hy : y = next ∨ Replies A y s) :
    (if c then x else y) = next ∨ Replies A (if c then x else y) s := by
  by_cases hc : c
  · rw [if_pos hc]
    exact hx hc
  · rw [if_neg hc]
    exact hy

/-- **Every handler replies**, and other URIs go to the next layer. -/
theorem PervertLayer.replies (h : QueryHeld s query) (hpublished : Published host info query)
    (hdms : s.dms = server.dms) (next : Program Exchange Unit) :
    PervertLayer.handle host info next = next ∨
      Replies (Answerable host info server) (PervertLayer.handle host info next) s := by
  have hserved : Answerable host info server → ∀ (exec : Text) (dm : DataManager),
      s.dms[exec]? = some dm → ∃ t, dm.served = .of t := by
    intro hA exec dm hdm
    rw [hdms] at hdm
    obtain ⟨t, ht, -⟩ := hA.loaded exec dm hdm
    exact ⟨t, ht⟩
  unfold PervertLayer.handle
  refine replies_ite (fun _ => Or.inr replies_200) ?_
  refine replies_ite (fun huri => Or.inr (replies_pp_update h fun hA qd hqd => ?_)) ?_
  · subst hqd
    exact hA.update huri qd hpublished
  refine replies_ite (fun _ => Or.inr ?_) ?_
  · rw [Replies, pp_list, wp_bind, wp_get]
    exact replies_200
  refine replies_ite (fun _ => Or.inr (replies_f_status h)) ?_
  refine replies_ite (fun _ => Or.inr (replies_frame h hpublished hdms (by decide)
    fun qd t hloaded hfits hrange => f_mem_status_returns hloaded hfits hrange _)) ?_
  refine replies_ite
    (fun _ => Or.inr (replies_withTrace h hserved fun _ _ _ _ _ _ _ => replies_200)) ?_
  refine replies_ite (fun _ => Or.inr (replies_frame h hpublished hdms (by decide)
    fun qd t hloaded hfits hrange => f_context_stack_returns hloaded hfits hrange)) ?_
  refine replies_ite (fun _ => Or.inr (replies_frame h hpublished hdms (by decide)
    fun qd t hloaded hfits hrange => f_context_events_returns hloaded hfits hrange)) ?_
  refine replies_ite (fun _ => Or.inr (replies_frame h hpublished hdms (by decide)
    fun qd t _ hfits hrange => f_context_deriv_returns hfits hrange)) ?_
  exact replies_ite (fun _ => Or.inr (replies_frame h hpublished hdms (by decide)
    fun qd t hloaded hfits hrange => f_context_histo_returns hloaded hfits hrange)) (Or.inl rfl)

end Dispatch

end PerVERT
