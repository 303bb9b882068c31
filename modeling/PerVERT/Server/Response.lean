import PerVERT.Core.Effect
import PerVERT.Server.DataManager
import PerVERT.Server.Query

/-!
# Requests, responses and their metadata

What a request is while the layers work on it, and what they do to it.

* `Exchange` — the members of `Request` and `Response`, what was sent, the `Metadata` objects that
  were created and how often each was deleted, and the state that outlives the request.
* `create`, `setMetadata`, `getMetadata`, `deref`, `destroy` — the uses of `Metadata`.
* `writeStatusAndEnd`, `write200Response` — the writers of `HTTPLayer`, with their rules for `wp`.
* `Owned` — every object that was not deleted is held under one of some names, and the others were
  deleted once; `Owned.created`, `Owned.discarded`, **`Owned.destroyed`**.
-/

namespace PerVERT

/-! ## Data -/

/-- What a `char*` shows of a text: it ends at the first NUL. -/
def cString (s : Text) : Text := s.takeWhile (· ≠ '\x00')

/-- `timeval`. -/
structure Timeval where
  tv_sec : ℤ
  tv_usec : ℤ
  deriving DecidableEq, Repr

/-- The members of `mg_request_info` that the layers read. -/
structure RequestInfo where
  request_method : Text
  uri : Text
  http_version : Text
  query_string : Option Text
  remote_ip : UInt32
  deriving DecidableEq, Repr

/-- The structures that extend `Metadata`. -/
inductive Metadata
  /-- `LoggerMetadata`. -/
  | logger (starttime : Timeval)
  /-- `QueryData`. -/
  | query (data : QueryData)

/-- A `Metadata` that was created. -/
structure MetadataObject where
  value : Metadata
  /-- How often it was deleted. -/
  deletes : ℕ

/-- One call of `mg_write`. -/
structure Written where
  text : Text
  /-- It comes from `writeStatus`. -/
  isStatus : Bool
  deriving DecidableEq, Repr

/-- A line of `server.log`. -/
structure LogLine where
  remote_ip : UInt32
  http_version : Text
  request_method : Text
  uri : Text
  /-- In microseconds. -/
  duration : ℤ
  deriving DecidableEq, Repr

/-- What outlives a request. -/
structure ServerState where
  /-- `_dms`. -/
  dms : Std.TreeMap Text DataManager
  /-- `_lastChangeID`. -/
  lastChangeID : ℤ
  /-- `_file` of the logger. -/
  serverLog : List LogLine

/-- A request on its way through the layers. -/
structure Exchange extends ServerState where
  /-- `Request::currentLayer`. -/
  currentLayer : ℕ
  /-- The names of the layers whose `handle` was called, in this order. -/
  handled : List Text
  mg_success : ℤ
  /-- `Response::_metadata`.  A `Metadata*` is a position in `objects`. -/
  metadata : Text → Option ℕ
  /-- All the `Metadata` that was created. -/
  objects : List MetadataObject
  written : List Written

/-- `new Request` and `new Response`. -/
def Exchange.start (server : ServerState) : Exchange where
  toServerState := server
  currentLayer := 0
  handled := []
  mg_success := 1
  metadata := fun _ => none
  objects := []
  written := []

/-! ## Metadata -/

/-- `new` of a `Metadata`. -/
def create (value : Metadata) : Program Exchange ℕ := do
  let s ← Program.get
  Program.modify fun s => { s with objects := s.objects ++ [⟨value, 0⟩] }
  pure s.objects.length

/-- An object is written to. -/
def Exchange.store (p : ℕ) (value : Metadata) (s : Exchange) : Exchange :=
  { s with objects := s.objects.modify p fun o => { o with value } }

/-- An object is deleted. -/
def Exchange.destroy (p : ℕ) (s : Exchange) : Exchange :=
  { s with objects := s.objects.modify p fun o => { o with deletes := o.deletes + 1 } }

/-- `Response::setMetadata`. -/
def Exchange.setMetadata (name : Text) (p : ℕ) (s : Exchange) : Exchange :=
  { s with metadata := Function.update s.metadata name (some p) }

@[simp] lemma metadata_setMetadata_self {name : Text} {p : ℕ} {s : Exchange} :
    (s.setMetadata name p).metadata name = some p := Function.update_self ..

lemma metadata_setMetadata_of_ne {name n : Text} {p : ℕ} {s : Exchange} (h : n ≠ name) :
    (s.setMetadata name p).metadata n = s.metadata n := Function.update_of_ne h ..

@[simp] lemma objects_setMetadata {name : Text} {p : ℕ} {s : Exchange} :
    (s.setMetadata name p).objects = s.objects := rfl

/-- `Response::getMetadata`. -/
def getMetadata (name : Text) : Program Exchange (Option ℕ) := do
  let s ← Program.get
  pure (s.metadata name)

/-- A read through a `Metadata*`. -/
def Exchange.read (s : Exchange) : Option ℕ → Checked Metadata
  | none => .error .outOfRange
  | some p =>
      match s.objects[p]? with
      | some ⟨value, 0⟩ => .ok value
      | _ => .error .outOfRange

def deref (p : Option ℕ) : Program Exchange Metadata := do
  let s ← Program.get
  Program.check (s.read p)

/-! ## `HTTPLayer` -/

/-- `Response::write`. -/
def Exchange.write (text : Text) (s : Exchange) : Exchange :=
  { s with written := s.written ++ [⟨text, false⟩] }

def write (text : Text) : Program Exchange Unit := Program.modify (Exchange.write text)

/-- The status lines that `writeStatus` knows. -/
def statusLine : ℕ → Option Text
  | 200 => some "HTTP/1.1 200 OK\r\n".toList
  | 404 => some "HTTP/1.1 404 Not Found\r\n".toList
  | 413 => some "HTTP/1.1 413 Request Entity Too Large\r\n".toList
  | 500 => some "HTTP/1.1 500 Internal Server Error\r\n".toList
  | _ => none

/-- `HTTPLayer::writeStatus`. -/
def writeStatus (code : ℕ) : Program Exchange Unit :=
  match statusLine code with
  | some text => Program.modify fun s => { s with written := s.written ++ [⟨text, true⟩] }
  | none => pure ()

/-- `HTTPLayer::writeHeadersEnd`. -/
def writeHeadersEnd : Program Exchange Unit := write "\r\n".toList

/-- `HTTPLayer::writeStatusAndEnd`. -/
def writeStatusAndEnd (code : ℕ) : Program Exchange Unit := do
  writeStatus code
  writeHeadersEnd

/-- `HTTPLayer::CONTENT_TYPE`. -/
inductive ContentType
  | UNKNOWN
  | APP_JSON
  | APP_JAVASCRIPT
  | TEXT_PLAIN
  | TEXT_HTML
  | TEXT_CSS
  deriving DecidableEq, Repr

def content_type_to_string : ContentType → Text
  | .UNKNOWN => "unknown".toList
  | .APP_JSON => "application/json".toList
  | .APP_JAVASCRIPT => "application/javascript".toList
  | .TEXT_PLAIN => "text/plain".toList
  | .TEXT_HTML => "text/html".toList
  | .TEXT_CSS => "text/css".toList

/-- `%d`. -/
def showInt (x : ℤ) : Text := if x < 0 then '-' :: showDec x.natAbs else showDec x.natAbs

/-- The headers of `write200Response`.  The length is printed as an `int`. -/
def headers (ct : ContentType) (len : ℕ) : Text :=
  let contentType := if ct = .UNKNOWN then []
    else "Content-Type: ".toList ++ content_type_to_string ct ++ "\r\n".toList
  "Cache: no-cache\r\nContent-Length: ".toList ++ showInt (toInt len) ++ "\r\n".toList
    ++ contentType ++ "\r\n".toList

/-- `HTTPLayer::write200Response`. -/
def write200Response (ct : ContentType) (data : Text) : Program Exchange Unit := do
  writeStatus 200
  write (headers ct data.length)
  write data
  write "\r\n".toList

/-! ## Rules -/

/-- The number of status lines that were written. -/
def Exchange.statusLines (s : Exchange) : ℕ := s.written.countP Written.isStatus

/-- What a writer of an answer leaves. -/
def Answered (s s' : Exchange) : Prop :=
  ∃ ws : List Written, ws.countP Written.isStatus = 1 ∧ s' = { s with written := s.written ++ ws }

section Rules

variable {s s' : Exchange} {E : Fault → Exchange → Prop}

@[simp] lemma wp_getMetadata {name : Text} {Q : Option ℕ → Exchange → Prop} :
    wp (getMetadata name) Q E s ↔ Q (s.metadata name) s := by
  simp [getMetadata]

@[simp] lemma wp_create {value : Metadata} {Q : ℕ → Exchange → Prop} :
    wp (create value) Q E s
      ↔ Q s.objects.length { s with objects := s.objects ++ [⟨value, 0⟩] } := by
  simp [create]

@[simp] lemma wp_deref {p : Option ℕ} {Q : Metadata → Exchange → Prop} :
    wp (deref p) Q E s ↔ wp (Program.check (s.read p)) Q E s := by
  simp [deref]

@[simp] lemma wp_write {text : Text} {Q : Unit → Exchange → Prop} :
    wp (write text) Q E s ↔ Q () (s.write text) := Iff.rfl

lemma wp_writeStatus {code : ℕ} {text : Text} {Q : Unit → Exchange → Prop}
    (h : statusLine code = some text) : wp (writeStatus code) Q E s
      ↔ Q () { s with written := s.written ++ [⟨text, true⟩] } := by
  rw [writeStatus, h]
  exact wp_modify

/-- Every answer has one status line. -/
lemma wp_writeStatusAndEnd {code : ℕ} {text : Text} {Q : Unit → Exchange → Prop}
    (h : statusLine code = some text) (hQ : ∀ s', Answered s s' → Q () s') :
    wp (writeStatusAndEnd code) Q E s := by
  rw [writeStatusAndEnd, wp_bind, wp_writeStatus h, writeHeadersEnd, wp_write]
  refine hQ _ ⟨[⟨text, true⟩, ⟨"\r\n".toList, false⟩], by simp, ?_⟩
  simp [Exchange.write]

lemma wp_write200Response {ct : ContentType} {data : Text} {Q : Unit → Exchange → Prop}
    (hQ : ∀ s', Answered s s' → Q () s') : wp (write200Response ct data) Q E s := by
  simp only [write200Response, wp_bind, wp_writeStatus (show statusLine 200 = some _ from rfl),
    wp_write]
  refine hQ _ ⟨[⟨"HTTP/1.1 200 OK\r\n".toList, true⟩, ⟨headers ct data.length, false⟩,
    ⟨data, false⟩, ⟨"\r\n".toList, false⟩], by simp, ?_⟩
  simp [Exchange.write]

end Rules

/-! ## Ownership -/

/-- The objects that were not deleted are those held under `names`; every other was deleted
once. -/
structure Owned (names : List Text) (s : Exchange) : Prop where
  held : ∀ name ∈ names, ∀ p, s.metadata name = some p → ∃ value, s.objects[p]? = some ⟨value, 0⟩
  distinct : ∀ name ∈ names, ∀ name' ∈ names, ∀ p, s.metadata name = some p →
    s.metadata name' = some p → name = name'
  deleted : ∀ p o, s.objects[p]? = some o → o.deletes = 1 ∨
    ∃ name ∈ names, s.metadata name = some p

section Owned

variable {names : List Text} {s : Exchange} {name : Text} {value : Metadata}

lemma owned_start (names : List Text) (server : ServerState) :
    Owned names (.start server) :=
  ⟨by simp [Exchange.start], by simp [Exchange.start], by simp [Exchange.start]⟩

/-- When nothing is held, everything was deleted once. -/
lemma Owned.all_deleted (h : Owned [] s) : ∀ o ∈ s.objects, o.deletes = 1 := by
  intro o ho
  obtain ⟨p, hp⟩ := List.mem_iff_getElem?.mp ho
  simpa using h.deleted p o hp

/-- Only metadata and objects matter. -/
lemma Owned.congr {s' : Exchange} (h : Owned names s) (hmetadata : s'.metadata = s.metadata)
    (hobjects : s'.objects = s.objects) : Owned names s' := by
  constructor <;> rw [hmetadata] <;> try rw [hobjects]
  · exact h.held
  · exact h.distinct
  · exact h.deleted

lemma Owned.lt_length (h : Owned names s) (hname : name ∈ names) {p : ℕ}
    (hp : s.metadata name = some p) : p < s.objects.length := by
  obtain ⟨value, hvalue⟩ := h.held name hname p hp
  exact lt_of_getElem? hvalue

lemma getElem?_created {o o' : MetadataObject} {p : ℕ} :
    (s.objects ++ [o])[p]? = some o' ↔
      s.objects[p]? = some o' ∨ (p = s.objects.length ∧ o' = o) := getElem?_snoc

/-- A new object that is handed to `setMetadata`. -/
lemma Owned.created (h : Owned names s) (hname : name ∈ names) (hfree : s.metadata name = none)
    (value : Metadata) :
    Owned names (Exchange.setMetadata name s.objects.length
      { s with objects := s.objects ++ [⟨value, 0⟩] }) := by
  have hother : ∀ {n : Text} {p : ℕ}, Function.update s.metadata name (some s.objects.length) n
      = some p → (n = name ∧ p = s.objects.length) ∨ (n ≠ name ∧ s.metadata n = some p) := by
    intro n p hp
    by_cases hn : n = name
    · simp only [hn, Function.update_self, Option.some.injEq] at hp
      exact Or.inl ⟨hn, hp.symm⟩
    · simp only [Function.update_of_ne hn] at hp
      exact Or.inr ⟨hn, hp⟩
  constructor
  · intro n hn p hp
    rcases hother hp with ⟨-, rfl⟩ | ⟨-, hp⟩
    · exact ⟨value, by simp [Exchange.setMetadata]⟩
    · obtain ⟨v, hv⟩ := h.held n hn p hp
      exact ⟨v, getElem?_created.mpr (Or.inl hv)⟩
  · intro n hn n' hn' p hp hp'
    rcases hother hp with ⟨rfl, rfl⟩ | ⟨-, hold⟩
    · rcases hother hp' with ⟨rfl, -⟩ | ⟨-, hold'⟩
      · rfl
      · exact absurd (h.lt_length hn' hold') (Nat.lt_irrefl _)
    · rcases hother hp' with ⟨rfl, rfl⟩ | ⟨-, hold'⟩
      · exact absurd (h.lt_length hn hold) (Nat.lt_irrefl _)
      · exact h.distinct n hn n' hn' p hold hold'
  · intro p o ho
    rcases getElem?_created.mp ho with ho | ⟨rfl, rfl⟩
    · rcases h.deleted p o ho with hdel | ⟨n, hn, hp⟩
      · exact Or.inl hdel
      · refine Or.inr ⟨n, hn, ?_⟩
        have hne : n ≠ name := by
          rintro rfl
          rw [hfree] at hp
          cases hp
        simp [Exchange.setMetadata, Function.update_of_ne hne, hp]
    · exact Or.inr ⟨name, hname, by simp [Exchange.setMetadata]⟩

/-- A new object that is deleted at once. -/
lemma Owned.discarded (h : Owned names s) (value : Metadata) :
    Owned names { s with objects := s.objects ++ [⟨value, 1⟩] } := by
  constructor
  · intro n hn p hp
    obtain ⟨v, hv⟩ := h.held n hn p hp
    exact ⟨v, getElem?_created.mpr (Or.inl hv)⟩
  · exact h.distinct
  · intro p o ho
    rcases getElem?_created.mp ho with ho | ⟨rfl, rfl⟩
    · exact h.deleted p o ho
    · exact Or.inl rfl

/-- **Deleting what is held** under the first of the names. -/
lemma Owned.destroyed (h : Owned (name :: names) s) (hnotin : name ∉ names) {p : ℕ}
    (hp : s.metadata name = some p) : Owned names (s.destroy p) := by
  have hne : ∀ n ∈ names, ∀ q, s.metadata n = some q → q ≠ p := by
    rintro n hn q hq rfl
    have hname := h.distinct n (List.mem_cons_of_mem _ hn) name List.mem_cons_self q hq hp
    exact hnotin (hname ▸ hn)
  constructor
  · intro n hn q hq
    obtain ⟨v, hv⟩ := h.held n (List.mem_cons_of_mem _ hn) q hq
    refine ⟨v, ?_⟩
    simp [Exchange.destroy, (hne n hn q hq).symm, hv]
  · intro n hn n' hn'
    exact h.distinct n (List.mem_cons_of_mem _ hn) n' (List.mem_cons_of_mem _ hn')
  · intro q o ho
    by_cases hq : p = q
    · -- it was not deleted before
      subst hq
      obtain ⟨v, hv⟩ := h.held name List.mem_cons_self p hp
      simp only [Exchange.destroy, List.getElem?_modify, hv] at ho
      simp at ho
      left
      rw [← ho]
    · simp only [Exchange.destroy, List.getElem?_modify, if_neg hq] at ho
      rcases h.deleted q o (by simpa using ho) with hdel | ⟨n, hn, hn'⟩
      · exact Or.inl hdel
      · rcases List.mem_cons.mp hn with rfl | hn
        · exact absurd (Option.some.inj (hp.symm.trans hn')) hq
        · exact Or.inr ⟨n, hn, hn'⟩

/-- Nothing is held under the first of the names. -/
lemma Owned.unheld (h : Owned (name :: names) s) (hnone : s.metadata name = none) :
    Owned names s := by
  constructor
  · intro n hn
    exact h.held n (List.mem_cons_of_mem _ hn)
  · intro n hn n' hn'
    exact h.distinct n (List.mem_cons_of_mem _ hn) n' (List.mem_cons_of_mem _ hn')
  · intro p o ho
    rcases h.deleted p o ho with hdel | ⟨n, hn, hp⟩
    · exact Or.inl hdel
    · rcases List.mem_cons.mp hn with rfl | hn
      · rw [hnone] at hp
        cases hp
      · exact Or.inr ⟨n, hn, hp⟩

/-- Writing to the newest object, -/
@[simp] lemma store_created {o : MetadataObject} :
    Exchange.store s.objects.length value { s with objects := s.objects ++ [o] }
      = { s with objects := s.objects ++ [⟨value, o.deletes⟩] } := by
  simp [Exchange.store, List.modify_eq_take_drop]

/-- and deleting it. -/
@[simp] lemma destroy_created {o : MetadataObject} :
    Exchange.destroy s.objects.length { s with objects := s.objects ++ [o] }
      = { s with objects := s.objects ++ [⟨o.value, o.deletes + 1⟩] } := by
  simp [Exchange.destroy, List.modify_eq_take_drop]

end Owned

end PerVERT
