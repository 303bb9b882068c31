import PerVERT.Core.Fault
import PerVERT.Core.HexText
import PerVERT.Core.OrderedMap

/-!
# The trace a server holds for one executable

`Trace` is the class of the same name: the parsed events, the indices built over them and the
compressed address space.  Text is a list of characters throughout.

The source points where this file counts.  An `Event*` is a position in `events_` — the vector
does not change length once it is parsed, while the events it holds are rewritten in place — and a
`Context*` is the key of the entry of `contexts_` it points at: map entries never move, so two
such pointers are equal exactly when the keys are.
-/

namespace PerVERT

/-- `Trace::Event::Type`. -/
inductive EventType
  | MALLOC
  | FREE
  | READ
  | WRITE
  | END
  deriving DecidableEq, Repr

/-- `Trace::Event`. -/
structure Event where
  /-- Global index. -/
  index : UInt32
  /-- What type of event was this? -/
  type : EventType
  /-- MALLOC: begin, FREE: begin, READ/WRITE: addr. -/
  arg1 : UInt64
  /-- MALLOC: end. -/
  arg2 : UInt64
  /-- The entry of `contexts_` the event's context pointer points at. -/
  context : Text
  deriving DecidableEq, Repr

/-- READ and WRITE events, the ones the memory view shows. -/
def Event.isAccess (e : Event) : Bool :=
  e.type == .READ || e.type == .WRITE

/-- `Trace::Location`. -/
structure Location where
  file : Text
  line : UInt32
  /-- Starting address. -/
  address : UInt64
  deriving DecidableEq, Repr

/-- The members of `Trace` that the two parsers fill.  A `Location*` is a position in
`locations_`. -/
structure Parsed where
  /-- Both files could be opened. -/
  okay : Bool
  locations : List Location
  /-- `contexts_`: the resolved stack of each stack text. -/
  contexts : Text → Option (List ℕ)
  events : List Event

/-- `Trace`. -/
structure Trace extends Parsed where
  /-- `byType_`: for each type, the positions of its events. -/
  byType : EventType → List ℕ
  /-- `byContext_`: for each context, the positions of its events. -/
  byContext : Text → List ℕ
  /-- `validRegions_`: for each event, the live MALLOC events just after it, in order of begin. -/
  validRegions : List (List ℕ)
  /-- The maximum address ever allocated. -/
  maxAddress : UInt64
  cacheLine : UInt64

/-- The events a vector of `Event*` points at.  Positions outside `events_` cannot occur: only
`indexTraceFile` stores positions, and it stores those it has just visited. -/
def pointees (events : List Event) (ptrs : List ℕ) : List Event :=
  ptrs.filterMap fun i => events[i]?

/-- The closed intervals `[begin, end]` of the events in `byType_[Event::MALLOC]`. -/
def Trace.mallocIntervals (t : Trace) : List (UInt64 × UInt64) :=
  (pointees t.events (t.byType .MALLOC)).map fun e => (e.arg1, e.arg2)

end PerVERT
