import PerVERT.Server.PervertLayer

/-!
# The server and its layers

A request goes from layer to layer: each either answers or calls `next`, which is the server again.
When they are through, `afterwards` runs on every layer, also on those that were never reached.

* `LoggerLayer`, `QueryLayer`, `StaticLayer` — as the code runs them; `Layer`, `layers` — what a
  server sees of a layer, and the four that `init` registers.
* `Server.next`, `Server.afterwards`, `Server.handleRequest` — as the code runs them.
* **`next_triple`** — the rule of `next`, for any list of layers that keep to a condition.
* `AtLayer` — the condition before each of the four layers; one lemma for each layer.
* **`handleRequest_once`** — what is true of a request when it is through.
-/

namespace PerVERT

/-! ## The layers -/

section Layers

variable (host : Host) (info : RequestInfo)

/-- `LoggerLayer::handle`. -/
def LoggerLayer.handle (next : Program Exchange Unit) : Program Exchange Unit := do
  let m ← create (.logger host.starttime)
  Program.modify (Exchange.setMetadata "logger".toList m)
  next

/-- From one answer of `gettimeofday` to another, in microseconds. -/
def duration (start stop : Timeval) : ℤ :=
  1000000 * (stop.tv_sec - start.tv_sec) + (stop.tv_usec - start.tv_usec)

/-- The line of the level `TINY`. -/
def logLine (starttime : Timeval) : LogLine where
  remote_ip := info.remote_ip
  http_version := info.http_version
  request_method := info.request_method
  uri := info.uri
  duration := duration starttime host.currentTime

/-- `delete` of a `Metadata*`. -/
def deleteMetadata : Option ℕ → Program Exchange Unit
  | none => pure ()
  | some p => Program.modify (Exchange.destroy p)

/-- `LoggerLayer::afterwards`. -/
def LoggerLayer.afterwards : Program Exchange Unit := do
  let m ← getMetadata "logger".toList
  match ← deref m with
  | .logger starttime => do
      deleteMetadata m
      Program.modify fun s => { s with serverLog := s.serverLog ++ [logLine host info starttime] }
  | .query _ => Program.check (.error .outOfRange)

/-- `QueryLayer::handle`. -/
def QueryLayer.handle (next : Program Exchange Unit) : Program Exchange Unit :=
  match info.query_string with
  | none => next
  | some query_string => do
      let qd ← create (.query QueryData.empty)
      match ← Program.check (parseQuery host.fuel query_string) with
      | some data => do
          Program.modify (Exchange.store qd (.query data))
          Program.modify (Exchange.setMetadata "query".toList qd)
          next
      | none => do
          Program.modify (Exchange.destroy qd)
          next

/-- `QueryLayer::afterwards`. -/
def QueryLayer.afterwards : Program Exchange Unit := do
  let qd ← getMetadata "query".toList
  deleteMetadata qd

/-- `_maxfilesize`. -/
def maxfilesize : ℤ := 10485760

/-- The file that a URI stands for. -/
def filePath (last : Char) : Text :=
  host.httproot ++ info.uri ++ if last = '/' then "index.html".toList else []

/-- `StaticLayer::handle`. -/
def StaticLayer.handle (next : Program Exchange Unit) : Program Exchange Unit :=
  if info.request_method = "GET".toList then do
    let last ← Program.check (vectorAt info.uri (info.uri.length - 1))
    let f := filePath host info last
    if host.access f then
      let size := host.st_size f
      if maxfilesize < size then writeStatusAndEnd 413
      -- `new char[size]` throws
      else if size < 0 then Program.check (.error .outOfRange)
      else if host.fopen f then
        let filedata := host.fread f size.toNat
        if filedata.length = size.toNat then write200Response .UNKNOWN filedata
        else writeStatusAndEnd 500
      else writeStatusAndEnd 500
    else writeStatusAndEnd 404
  else next

/-- A `Layer`.  Its `handle` gets what it calls with `next`. -/
structure Layer where
  name : Text
  handle : Program Exchange Unit → Program Exchange Unit
  afterwards : Program Exchange Unit

/-- The layers that `init` registers. -/
def layers : List Layer :=
  [⟨"LoggerLayer".toList, LoggerLayer.handle host, LoggerLayer.afterwards host info⟩,
    ⟨"QueryLayer".toList, QueryLayer.handle host info, QueryLayer.afterwards⟩,
    ⟨"PervertLayer".toList, PervertLayer.handle host info, pure ()⟩,
    ⟨"StaticLayer".toList, StaticLayer.handle host info, pure ()⟩]

end Layers

/-! ## The server -/

/-- The server calls a layer. -/
def Exchange.enter (layer : Layer) (s : Exchange) : Exchange :=
  { s with currentLayer := s.currentLayer + 1, handled := s.handled ++ [layer.name] }

/-- `Server::next`, for at most so many layers. -/
def Server.next (layers : List Layer) : ℕ → Program Exchange Unit
  | 0 => Program.check (.error .outOfFuel)
  | n + 1 => do
      let s ← Program.get
      match layers[s.currentLayer]? with
      | some layer => do
          Program.modify (Exchange.enter layer)
          layer.handle (Server.next layers n)
      | none => Program.modify fun s => { s with mg_success := 0 }

/-- `Server::afterwards`, from the last layer to the first. -/
def Server.afterwards : List Layer → Program Exchange Unit
  | [] => pure ()
  | layer :: rest => do
      Server.afterwards rest
      layer.afterwards

/-- `mg_event`. -/
inductive MgEvent
  | MG_NEW_REQUEST
  | MG_HTTP_ERROR
  | MG_EVENT_LOG
  | MG_INIT_SSL
  deriving DecidableEq, Repr

/-- `Server::handleRequest`, on a new request and response. -/
def Server.handleRequest (layers : List Layer) (event : MgEvent) : Program Exchange ℤ := do
  match event with
  | .MG_NEW_REQUEST => do
      Server.next layers (layers.length + 1)
      Server.afterwards layers
  | .MG_HTTP_ERROR | .MG_EVENT_LOG | .MG_INIT_SSL =>
      Program.modify fun s => { s with mg_success := 0 }
  let s ← Program.get
  pure s.mg_success

/-! ## The rule of `next` -/

section Chain

variable {layers : List Layer} {Pre : ℕ → Exchange → Prop} {Q : Unit → Exchange → Prop}
  {E : Fault → Exchange → Prop}

/-- A layer keeps to the conditions as number `l`, if `next` does. -/
def LayerKeeps (Pre : ℕ → Exchange → Prop) (Q : Unit → Exchange → Prop)
    (E : Fault → Exchange → Prop) (l : ℕ) (layer : Layer) : Prop :=
  ∀ next, Triple (Pre (l + 1)) next Q E →
    ∀ s, Pre l s → wp (layer.handle next) Q E (s.enter layer)

/-- **The rule of `next`.**  When every layer keeps to the conditions, so does the server. -/
theorem next_triple (hlayers : ∀ l layer, layers[l]? = some layer → LayerKeeps Pre Q E l layer)
    (hend : ∀ s, Pre layers.length s → Q () { s with mg_success := 0 })
    (hcurrent : ∀ l s, Pre l s → s.currentLayer = l) {n : ℕ} :
    ∀ {l : ℕ}, l ≤ layers.length → layers.length < n + l →
      Triple (Pre l) (Server.next layers n) Q E := by
  induction n with
  | zero =>
      intro l hle hlt
      omega
  | succ n ih =>
      intro l hle hlt s hs
      rw [Server.next, wp_bind, wp_get, hcurrent l s hs]
      rcases Nat.lt_or_eq_of_le hle with hl | rfl
      · rw [List.getElem?_eq_getElem hl]
        simp only [wp_bind, wp_modify]
        exact hlayers l _ (List.getElem?_eq_getElem hl) _ (ih hl (by omega)) s hs
      · simp only [List.getElem?_length, wp_modify]
        exact hend s hs

end Chain

/-! ## Before each layer -/

/-- The layers in the order of their registration. -/
def layerNames : List Text :=
  ["LoggerLayer".toList, "QueryLayer".toList, "PervertLayer".toList, "StaticLayer".toList]

/-- The names under which metadata is held, in the order in which it is deleted. -/
def metadataNames : List Text := ["query".toList, "logger".toList]

/-- The logger has put its metadata. -/
def LoggerHeld (s : Exchange) : Prop :=
  ∃ p starttime, s.metadata "logger".toList = some p ∧
    s.objects[p]? = some ⟨.logger starttime, 0⟩

/-- The metadata, when the request has gone through so many layers. -/
def MetadataHeld (host : Host) (info : RequestInfo) : ℕ → Exchange → Prop
  | 0, s => s.metadata "logger".toList = none ∧ s.metadata "query".toList = none
  | 1, s => LoggerHeld s ∧ s.metadata "query".toList = none
  | _ + 2, s => LoggerHeld s ∧ ∃ query, QueryHeld s query ∧ Published host info query

/-- No answer so far, and `l` layers were called. -/
structure Waiting (server : ServerState) (l : ℕ) (s : Exchange) : Prop where
  currentLayer : s.currentLayer = l
  handled : s.handled = layerNames.take l
  mg_success : s.mg_success = 1
  silent : s.statusLines = 0
  dms : s.dms = server.dms
  owned : Owned metadataNames s

/-- Before the layer number `l` is called. -/
def AtLayer (host : Host) (info : RequestInfo) (server : ServerState) (l : ℕ) (s : Exchange) :
    Prop :=
  Waiting server l s ∧ MetadataHeld host info l s

/-- The layers that were called are the first ones, -/
def InOrderOfRegistration (s : Exchange) : Prop := s.handled <+: layerNames

/-- one status line was written just if the request counts as served, -/
def AnsweredOnce (s : Exchange) : Prop :=
  (s.mg_success = 1 ∧ s.statusLines = 1) ∨ (s.mg_success = 0 ∧ s.statusLines = 0)

/-- and the metadata waits for `afterwards`. -/
structure Through (s : Exchange) : Prop where
  handled : InOrderOfRegistration s
  answered : AnsweredOnce s
  owned : Owned metadataNames s
  logger : LoggerHeld s

section Stages

variable {host : Host} {info : RequestInfo} {server : ServerState} {s : Exchange} {l : ℕ}

/-- Where the layers may stop: behind the first ones, and not on an answerable request. -/
def Halted (host : Host) (info : RequestInfo) (server : ServerState) (s : Exchange) : Prop :=
  InOrderOfRegistration s ∧ ¬ Answerable host info server

lemma Waiting.inOrder (h : Waiting server l s) : InOrderOfRegistration s := by
  rw [InOrderOfRegistration, h.handled]
  exact List.take_prefix l _

variable (host info) in
/-- A layer that is called is one more. -/
lemma Waiting.enter (h : Waiting server l s) {layer : Layer}
    (hlayer : (layers host info)[l]? = some layer) : Waiting server (l + 1) (s.enter layer) := by
  have hname : layerNames[l]? = some layer.name := by
    have hnames : layerNames = (layers host info).map Layer.name := rfl
    rw [hnames, List.getElem?_map, hlayer]
    rfl
  constructor
  · simp [Exchange.enter, h.currentLayer]
  · rw [List.take_add_one, hname]
    simp [Exchange.enter, h.handled]
  · exact h.mg_success
  · exact h.silent
  · exact h.dms
  · exact h.owned.congr rfl rfl

/-- What a handler has replied to is through. -/
lemma Waiting.through {s' : Exchange} (h : Waiting server l s) (hlogger : LoggerHeld s)
    (hreply : Replied s s') : Through s' := by
  obtain ⟨ws, hws, heq⟩ := hreply
  have hsilent := h.silent
  have hlines : s'.statusLines = 1 := by
    rw [heq]
    simp only [Exchange.statusLines, List.countP_append] at hsilent ⊢
    omega
  have hmg : s'.mg_success = 1 := by
    rw [heq]
    exact h.mg_success
  refine ⟨?_, Or.inl ⟨hmg, hlines⟩, h.owned.congr (by rw [heq]) (by rw [heq]), ?_⟩
  · have horder := h.inOrder
    rw [heq]
    exact horder
  · rw [heq]
    exact hlogger

/-- A request that no layer was left for is through. -/
lemma AtLayer.unserved (h : AtLayer host info server 4 s) : Through { s with mg_success := 0 } :=
  ⟨h.1.inOrder, Or.inr ⟨rfl, h.1.silent⟩, h.1.owned.congr rfl rfl, h.2.1⟩

/-! ## Each layer -/

/-- The condition that every layer keeps to. -/
abbrev Keeps (host : Host) (info : RequestInfo) (server : ServerState) :
    ℕ → Layer → Prop :=
  LayerKeeps (AtLayer host info server) (fun _ => Through) fun _ => Halted host info server

lemma query_ne_logger : "query".toList ≠ "logger".toList := by decide

lemma logger_ne_query : "logger".toList ≠ "query".toList := by decide

/-- **The logger** creates its metadata. -/
lemma keeps_logger : Keeps host info server 0
    ⟨"LoggerLayer".toList, LoggerLayer.handle host, LoggerLayer.afterwards host info⟩ := by
  rintro next hnext s ⟨hwait, hlogger, hquery⟩
  have henter := hwait.enter host info rfl
  show wp (LoggerLayer.handle host next) _ _ _
  simp only [LoggerLayer.handle, wp_bind, wp_create, wp_modify]
  refine hnext _ ⟨⟨henter.currentLayer, henter.handled, henter.mg_success, henter.silent,
    henter.dms, ?_⟩, ⟨s.objects.length, host.starttime, metadata_setMetadata_self, ?_⟩, ?_⟩
  · exact henter.owned.created (by simp [metadataNames]) hlogger _
  · rw [objects_setMetadata]
    exact List.getElem?_concat_length
  · rw [metadata_setMetadata_of_ne query_ne_logger]
    exact hquery

lemma LoggerHeld.append {o : MetadataObject} (h : LoggerHeld s) :
    LoggerHeld { s with objects := s.objects ++ [o] } := by
  obtain ⟨p, starttime, hp, hobject⟩ := h
  exact ⟨p, starttime, hp, getElem?_created.mpr (Or.inl hobject)⟩

/-- **The query layer** publishes the query data, or deletes it. -/
lemma keeps_query : Keeps host info server 1
    ⟨"QueryLayer".toList, QueryLayer.handle host info, QueryLayer.afterwards⟩ := by
  rintro next hnext s ⟨hwait, hlogger, hquery⟩
  have henter := hwait.enter host info rfl
  show wp (QueryLayer.handle host info next) _ _ _
  unfold QueryLayer.handle
  split
  · next hnone =>
      exact hnext _ ⟨henter, hlogger, none, hquery, by rw [Published, hnone]⟩
  · next q hq =>
      simp only [wp_bind, wp_create]
      refine wp_check.mpr ⟨fun r hr => ?_, fun e he => ⟨henter.inOrder, fun hA => ?_⟩⟩
      · have hpublished : Published host info r := by
          rw [Published, hq]
          exact hr
        cases r with
        | some data =>
            simp only [wp_bind, wp_modify, store_created]
            refine hnext _ ⟨⟨henter.currentLayer, henter.handled, henter.mg_success, henter.silent,
              henter.dms, ?_⟩, ?_, some data, ?_, hpublished⟩
            · exact henter.owned.created (by simp [metadataNames]) hquery _
            · obtain ⟨p, starttime, hp, hobject⟩ := hlogger.append (o := ⟨.query data, 0⟩)
              refine ⟨p, starttime, ?_, hobject⟩
              rw [metadata_setMetadata_of_ne logger_ne_query]
              exact hp
            · exact ⟨_, metadata_setMetadata_self, List.getElem?_concat_length⟩
        | none =>
            simp only [wp_bind, wp_modify, destroy_created]
            refine hnext _ ⟨⟨henter.currentLayer, henter.handled, henter.mg_success, henter.silent,
              henter.dms, henter.owned.discarded _⟩, hlogger.append, none, hquery, hpublished⟩
      · obtain ⟨hshort, hfuel⟩ := hA.query q hq
        obtain ⟨r, hr⟩ := parseQuery_returns hshort hfuel
        rw [hr] at he
        cases he

lemma Waiting.reply {x : Program Exchange Unit} (h : Waiting server l s) (hlogger : LoggerHeld s)
    (hx : Replies (Answerable host info server) x s) :
    wp x (fun _ => Through) (fun _ => Halted host info server) s := by
  refine wp_mono hx (fun _ s' hreply => h.through hlogger hreply) fun _ s' hstop => ⟨?_, hstop.2⟩
  rw [InOrderOfRegistration, hstop.1]
  exact h.inOrder

/-- **The handlers** reply, or pass the request on. -/
lemma keeps_pervert : Keeps host info server 2
    ⟨"PervertLayer".toList, PervertLayer.handle host info, pure ()⟩ := by
  rintro next hnext s ⟨hwait, hlogger, query, hquery, hpublished⟩
  have henter := hwait.enter host info rfl
  show wp (PervertLayer.handle host info next) _ _ _
  rcases @PervertLayer.replies host info server
      (s.enter ⟨"PervertLayer".toList, PervertLayer.handle host info, pure ()⟩) query hquery
      hpublished henter.dms next with hpass | hreplies
  · rw [hpass]
    exact hnext _ ⟨henter, hlogger, query, hquery, hpublished⟩
  · exact henter.reply hlogger hreplies

/-- **The static layer** replies to every GET. -/
lemma keeps_static : Keeps host info server 3
    ⟨"StaticLayer".toList, StaticLayer.handle host info, pure ()⟩ := by
  rintro next hnext s ⟨hwait, hlogger, query, hquery, hpublished⟩
  have henter := hwait.enter host info rfl
  show wp (StaticLayer.handle host info next) _ _ _
  unfold StaticLayer.handle
  split
  · rw [wp_bind]
    refine wp_check.mpr ⟨fun last _ => ?_, fun e he => ⟨henter.inOrder, fun hA => ?_⟩⟩
    · simp only
      split
      · split
        · exact henter.reply hlogger (replies_status rfl)
        · split
          · next hneg => exact ⟨henter.inOrder, fun hA => absurd (hA.size _) (Int.not_le.mpr hneg)⟩
          · split
            · split
              · exact henter.reply hlogger replies_200
              · exact henter.reply hlogger replies_500
            · exact henter.reply hlogger replies_500
      · exact henter.reply hlogger (replies_status rfl)
    · obtain ⟨last, hlast⟩ : ∃ last, info.uri[info.uri.length - 1]? = some last := by
        have hpos := List.length_pos_iff.mpr hA.uri
        exact ⟨_, List.getElem?_eq_getElem (by omega)⟩
      have hcast : ((info.uri.length : ℤ) - 1) = ((info.uri.length - 1 : ℕ) : ℤ) := by
        have hpos := List.length_pos_iff.mpr hA.uri
        omega
      rw [hcast, vectorAt_of_getElem? hlast] at he
      cases he
  · exact hnext _ ⟨henter, hlogger, query, hquery, hpublished⟩

/-! ## Afterwards -/

/-- What the client sees of a request does not change. -/
def SameOutcome (s s' : Exchange) : Prop :=
  s'.handled = s.handled ∧ s'.mg_success = s.mg_success ∧ s'.written = s.written

/-- **The query layer** deletes the query data, if it was published. -/
lemma query_afterwards {E : Fault → Exchange → Prop} (howned : Owned metadataNames s)
    (hlogger : LoggerHeld s) : wp QueryLayer.afterwards
      (fun _ s' => SameOutcome s s' ∧ Owned ["logger".toList] s' ∧ LoggerHeld s') E s := by
  rw [QueryLayer.afterwards, wp_bind, wp_getMetadata]
  cases hquery : s.metadata "query".toList with
  | none => exact ⟨⟨rfl, rfl, rfl⟩, howned.unheld hquery, hlogger⟩
  | some p =>
      refine ⟨⟨rfl, rfl, rfl⟩, howned.destroyed (by decide) hquery, ?_⟩
      obtain ⟨p', starttime, hp', hobject⟩ := hlogger
      have hne : p ≠ p' := by
        rintro rfl
        exact query_ne_logger (howned.distinct _ (by simp [metadataNames]) _
          (by simp [metadataNames]) p hquery hp')
      refine ⟨p', starttime, hp', ?_⟩
      simp [Exchange.destroy, hne, hobject]

/-- **The logger** deletes what it holds. -/
lemma logger_afterwards {E : Fault → Exchange → Prop} (howned : Owned ["logger".toList] s)
    (hlogger : LoggerHeld s) : wp (LoggerLayer.afterwards host info)
      (fun _ s' => SameOutcome s s' ∧ Owned [] s') E s := by
  obtain ⟨p, starttime, hp, hobject⟩ := hlogger
  have hread : s.read (some p) = .ok (.logger starttime) := by
    simp only [Exchange.read, hobject]
  rw [LoggerLayer.afterwards, wp_bind, wp_getMetadata, hp, wp_bind, wp_deref, hread, wp_check_ok]
  simp only [deleteMetadata, wp_bind, wp_modify]
  exact ⟨⟨rfl, rfl, rfl⟩, (howned.destroyed (by simp) hp).congr rfl rfl⟩

lemma forall_of_four {α : Type} {P : ℕ → α → Prop} {a b c d : α} (ha : P 0 a) (hb : P 1 b)
    (hc : P 2 c) (hd : P 3 d) : ∀ l x, [a, b, c, d][l]? = some x → P l x
  | 0, _, h => Option.some.inj h ▸ ha
  | 1, _, h => Option.some.inj h ▸ hb
  | 2, _, h => Option.some.inj h ▸ hc
  | 3, _, h => Option.some.inj h ▸ hd
  | _ + 4, _, h => by simp at h

/-- Called in the order of registration, answered once or not at all, and all metadata deleted. -/
structure Finished (s : Exchange) : Prop where
  handled : InOrderOfRegistration s
  answered : AnsweredOnce s
  owned : Owned [] s

/-- **Afterwards** nothing is left, and nothing stops. -/
lemma afterwards_triple {E : Fault → Exchange → Prop} :
    Triple Through (Server.afterwards (layers host info)) (fun _ => Finished) E := by
  intro s h
  simp only [layers, Server.afterwards, wp_bind, wp_pure]
  refine wp_mono (query_afterwards h.owned h.logger) (fun _ s₁ h₁ => ?_) fun _ _ hE => hE
  obtain ⟨⟨hhandled₁, hmg₁, hwritten₁⟩, howned₁, hlogger₁⟩ := h₁
  refine wp_mono (logger_afterwards howned₁ hlogger₁) (fun _ s₂ h₂ => ?_) fun _ _ hE => hE
  obtain ⟨⟨hhandled₂, hmg₂, hwritten₂⟩, howned₂⟩ := h₂
  refine ⟨?_, ?_, howned₂⟩
  · rw [InOrderOfRegistration, hhandled₂, hhandled₁]
    exact h.handled
  · rw [AnsweredOnce, Exchange.statusLines, hmg₂, hmg₁, hwritten₂, hwritten₁]
    exact h.answered

/-- **A new request** goes through the layers and back, or stops in one. -/
lemma handleRequest_triple : Triple (AtLayer host info server 0)
    (Server.handleRequest (layers host info) .MG_NEW_REQUEST)
    (fun r s => Finished s ∧ r = s.mg_success) fun _ => Halted host info server := by
  have hkeeps : ∀ l layer, (layers host info)[l]? = some layer → Keeps host info server l layer :=
    forall_of_four keeps_logger keeps_query keeps_pervert keeps_static
  have hnext : Triple (AtLayer host info server 0)
      (Server.next (layers host info) ((layers host info).length + 1)) (fun _ => Through)
      fun _ => Halted host info server :=
    next_triple hkeeps (fun s hs => AtLayer.unserved hs) (fun l s hs => hs.1.currentLayer)
      (Nat.zero_le _) (Nat.lt_succ_self _)
  have hserved : Triple (fun s => Finished s) (Program.get >>= fun s => pure s.mg_success)
      (fun r s => Finished s ∧ r = s.mg_success) fun _ => Halted host info server :=
    fun s hs => ⟨hs, rfl⟩
  exact hnext.bind fun _ => afterwards_triple.bind fun _ => hserved

end Stages

/-! ## A request -/

/-- What is true of a request that was handled, with what `handleRequest` returned. -/
structure HandledOnce (host : Host) (info : RequestInfo) (server : ServerState)
    (run : Except Fault ℤ × Exchange) : Prop where
  /-- The layers that were called are the first ones in the order of registration, each once. -/
  inOrder : run.2.handled <+: layerNames ∧ run.2.handled.Nodup
  /-- When it is through, it was answered once or not at all, and every metadata object was deleted
  once. -/
  answered : ∀ r, run.1 = .ok r →
    ((r = 1 ∧ run.2.statusLines = 1) ∨ (r = 0 ∧ run.2.statusLines = 0)) ∧
      ∀ o ∈ run.2.objects, o.deletes = 1
  /-- The request gets through. -/
  returns : Answerable host info server → ∃ r, run.1 = .ok r

/-- **Every request**, with any answers of the system: the layers are called in the order of their
registration, there is one answer or none as the result says, and no metadata is left or deleted
twice.  An error is an answer as well, and an answerable request is always handled to the end. -/
theorem handleRequest_once (host : Host) (info : RequestInfo) (server : ServerState) :
    HandledOnce host info server
      (Server.handleRequest (layers host info) .MG_NEW_REQUEST (.start server)) := by
  have hstart : AtLayer host info server 0 (.start server) :=
    ⟨⟨rfl, rfl, rfl, rfl, rfl, owned_start _ _⟩, rfl, rfl⟩
  obtain ⟨hok, herror⟩ := (@handleRequest_triple host info server).run hstart
  cases hresult : Server.handleRequest (layers host info) .MG_NEW_REQUEST (.start server) with
  | mk result s =>
      cases result with
      | error e =>
          obtain ⟨horder, hunanswerable⟩ := herror e s hresult
          refine ⟨⟨horder, horder.sublist.nodup (by decide)⟩, ?_, fun hA => absurd hA hunanswerable⟩
          intro r hr
          cases hr
      | ok r =>
          obtain ⟨⟨horder, hanswer, howned⟩, rfl⟩ := hok r s hresult
          refine ⟨⟨horder, horder.sublist.nodup (by decide)⟩, ?_, fun _ => ⟨_, rfl⟩⟩
          intro r hr
          cases hr
          exact ⟨hanswer, howned.all_deleted⟩

/-! ## A request that gets through -/

/-- A server that holds one trace. -/
def serverOf (t : Trace) : ServerState where
  dms := ({} : Std.TreeMap Text DataManager).insert "a.out".toList
    ⟨"a.out".toList, some 0, [some t]⟩
  lastChangeID := 0
  serverLog := []

/-- A host with no files. -/
def bareHost : Host where
  styledWriter := fun _ => []
  busy := fun _ => false
  starttime := ⟨0, 0⟩
  currentTime := ⟨0, 0⟩
  httproot := []
  access := fun _ => false
  st_size := fun _ => 0
  fopen := fun _ => false
  fread := fun _ _ => []
  files := fun _ => none
  junk := ⟨'?', 0⟩
  location := ⟨[], 0, 0⟩
  fuel := 100

def histoRequest : RequestInfo where
  request_method := "GET".toList
  uri := "/f/context_histo".toList
  http_version := "1.1".toList
  query_string := some "exec=a.out&frame=1".toList
  remote_ip := 0x7f000001

lemma goodTrace_fits : ∃ t, Trace.construct 10 ⟨'?', 0⟩ ⟨[], 0, 0⟩ (some goodLines)
    (some goodTrace) 1024 = .ok t ∧ Fits t ∧ 1 < t.events.length := by
  obtain ⟨t, ht, hfits⟩ := @exists_of_any _ (Trace.construct 10 ⟨'?', 0⟩ ⟨[], 0, 0⟩
    (some goodLines) (some goodTrace) 1024)
    (fun t => t.events.length < 2 ^ 31 ∧ (∀ e ∈ t.events, e.arg1.toNat < 2 ^ 31) ∧
      1 < t.events.length) (by decide +kernel)
  obtain ⟨hlength, haddress, hpos⟩ := of_decide_eq_true hfits
  exact ⟨t, ht, ⟨hlength, haddress⟩, hpos⟩

lemma histoRequest_answerable {t : Trace} (hloaded : Loaded t) (hfits : Fits t)
    (hlength : 1 < t.events.length) : Answerable bareHost histoRequest (serverOf t) := by
  have hdms : ∀ (exec : Text) (dm : DataManager), (serverOf t).dms[exec]? = some dm →
      dm.served = .of t := by
    intro exec dm hdm
    simp only [serverOf, Std.TreeMap.getElem?_insert] at hdm
    split_ifs at hdm
    · cases hdm
      rfl
    · simp at hdm
  have hframe : (parseQuery 100 "exec=a.out&frame=1".toList).map (Option.map frameOf)
      = .ok (some 1) := by decide +kernel
  constructor
  · decide
  · intro q hq
    cases hq
    decide
  · intro exec dm hdm
    exact ⟨t, hdms exec dm hdm, hloaded, hfits⟩
  · intro qd dm t' hpublished _ hdm ht'
    have hquery : parseQuery 100 "exec=a.out&frame=1".toList = .ok (some qd) := hpublished
    rw [hquery] at hframe
    rw [hdms _ dm hdm] at ht'
    cases ht'
    have hone : frameOf qd = 1 := Option.some.inj (Except.ok.inj hframe)
    rw [hone]
    exact ⟨by decide, by omega⟩
  · intro huri
    exact absurd huri (by decide)
  · intro path
    exact le_refl _

/-- A request for the histogram of a loaded trace. -/
theorem histoRequest_returns : ∃ t, Loaded t ∧ ∃ r,
    (Server.handleRequest (layers bareHost histoRequest) .MG_NEW_REQUEST
      (.start (serverOf t))).1 = .ok r := by
  obtain ⟨t, ht, hfits, hlength⟩ := goodTrace_fits
  have hloaded : Loaded t := ⟨_, _, _, _, _, ht⟩
  exact ⟨t, hloaded, (handleRequest_once bareHost histoRequest (serverOf t)).returns
    (histoRequest_answerable hloaded hfits hlength)⟩

end PerVERT
