import Mitiflow.Library.LimitedScan
import Mitiflow.Library.Text
import Mitiflow.StoreRetention

namespace Mitiflow

open Library

/-!
# Queries against the store

The queryable of a store receives a parameter string, decides by substring
tests which of two filter types to parse from it, and answers from one of two
query engines: a scan of the events keyspace or a scan of the replay index.
Each filter type knows only some of the parameters, so the parameters that a
route ignores are exactly those the other filter type would have honoured.

Parsing of identifiers and of dates is left to the libraries the source uses;
their parsers are parameters here.
-/

/-- The parameters that at least one filter type recognises. -/
inductive Parameter where
  | afterSeq
  | beforeSeq
  | afterTime
  | beforeTime
  | limit
  | publisherId
  | afterHlc
  | beforeHlc
  | key
  | keyPrefix
  deriving Repr, DecidableEq

namespace Parameter

def name : Parameter → String
  | .afterSeq => "after_seq"
  | .beforeSeq => "before_seq"
  | .afterTime => "after_time"
  | .beforeTime => "before_time"
  | .limit => "limit"
  | .publisherId => "publisher_id"
  | .afterHlc => "after_hlc"
  | .beforeHlc => "before_hlc"
  | .key => "key"
  | .keyPrefix => "key_prefix"

def ofName? (name : List Char) : Option Parameter :=
  [.afterSeq, .beforeSeq, .afterTime, .beforeTime, .limit, .publisherId,
    .afterHlc, .beforeHlc, .key, .keyPrefix].find?
      fun parameter => parameter.name.toList = name

end Parameter

/-- Library parsers of identifiers and dates. -/
structure SelectorParsers where
  uuid : List Char → Except String PublisherId
  dateTime : List Char → Except String DateTime

/-- One `key=value` part of a selector, if it is a recognised parameter. -/
def parsePart (part : List Char) : Option (Parameter × List Char) :=
  match Text.splitOnce '=' (Text.trim part) with
  | none => none
  | some (name, value) =>
    (Parameter.ofName? (Text.trim name)).map
      fun parameter => (parameter, Text.trim value)

/-- The recognised parameters of a selector, in order. -/
def recognised (params : String) : List (Parameter × List Char) :=
  (params.toList.splitOnP fun c => c = ';' || c = '&').filterMap parsePart

/-- Report a parse failure under a parameter's label. -/
def orInvalid (label : String) : Except String α → Except Error α
  | .ok value => .ok value
  | .error reason =>
    .error (.invalidConfig ("invalid " ++ label ++ ": " ++ reason))

/-- A decimal literal of at most `bound`, with the parse error rendered. -/
def decimal (bound : Nat) (text : List Char) : Except String Nat :=
  match Text.parseUnsigned bound text with
  | .ok value => .ok value
  | .error reason => .error reason.message

def parseU64 (label : String) (text : List Char) : Except Error U64 :=
  (orInvalid label (decimal u64Max text)).map (Fin.ofNat (2 ^ 64))

/-- A clock value in the format `physical:logical`. -/
def parseHlc (text : List Char) : Except Error HlcTimestamp :=
  match Text.splitOnce ':' text with
  | none =>
    .error (.invalidConfig
      ("invalid HLC format (expected physical:logical): " ++
        String.ofList text))
  | some (physical, logical) =>
    match orInvalid "HLC physical_ns" (decimal u64Max physical) with
    | .error failure => .error failure
    | .ok physicalNs =>
      (orInvalid "HLC logical" (decimal u32Max logical)).map fun value =>
        { physicalNs := Fin.ofNat (2 ^ 64) physicalNs
          logical := Fin.ofNat (2 ^ 32) value }

/-- Filters of a scan over the events keyspace. -/
structure QueryFilters where
  afterSeq : Option U64 := none
  beforeSeq : Option U64 := none
  afterTime : Option DateTime := none
  beforeTime : Option DateTime := none
  publisherId : Option PublisherId := none
  limit : Option Nat := none
  deriving Repr, DecidableEq

/-- Filters of a scan over the replay index. -/
structure ReplayFilters where
  afterHlc : Option HlcTimestamp := none
  beforeHlc : Option HlcTimestamp := none
  limit : Option Nat := none
  key : Option String := none
  keyPrefix : Option String := none
  publisherId : Option PublisherId := none
  deriving Repr, DecidableEq

namespace QueryFilters

/-- Apply one recognised parameter. -/
def apply (parsers : SelectorParsers) (filters : QueryFilters) :
    Parameter × List Char → Except Error QueryFilters
  | (.afterSeq, value) =>
    (parseU64 "after_seq" value).map fun seq =>
      { filters with afterSeq := some seq }
  | (.beforeSeq, value) =>
    (parseU64 "before_seq" value).map fun seq =>
      { filters with beforeSeq := some seq }
  | (.afterTime, value) =>
    (orInvalid "after_time" (parsers.dateTime value)).map fun time =>
      { filters with afterTime := some time }
  | (.beforeTime, value) =>
    (orInvalid "before_time" (parsers.dateTime value)).map fun time =>
      { filters with beforeTime := some time }
  | (.limit, value) =>
    (orInvalid "limit" (decimal u64Max value)).map fun limit =>
      { filters with limit := some limit }
  | (.publisherId, value) =>
    (orInvalid "publisher_id" (parsers.uuid value)).map fun publisher =>
      { filters with publisherId := some publisher }
  | _ => .ok filters

/-- Parse filters from a selector; the last occurrence of a parameter wins. -/
def fromSelector (parsers : SelectorParsers) (params : String) :
    Except Error QueryFilters :=
  (recognised params).foldlM (apply parsers) {}

end QueryFilters

namespace ReplayFilters

/-- Apply one recognised parameter. -/
def apply (parsers : SelectorParsers) (filters : ReplayFilters) :
    Parameter × List Char → Except Error ReplayFilters
  | (.afterHlc, value) =>
    (parseHlc value).map fun hlc => { filters with afterHlc := some hlc }
  | (.beforeHlc, value) =>
    (parseHlc value).map fun hlc => { filters with beforeHlc := some hlc }
  | (.limit, value) =>
    (orInvalid "limit" (decimal u64Max value)).map fun limit =>
      { filters with limit := some limit }
  | (.key, value) => .ok { filters with key := some (String.ofList value) }
  | (.keyPrefix, value) =>
    .ok { filters with keyPrefix := some (String.ofList value) }
  | (.publisherId, value) =>
    (orInvalid "publisher_id" (parsers.uuid value)).map fun publisher =>
      { filters with publisherId := some publisher }
  | _ => .ok filters

/-- Parse filters from a selector; the last occurrence of a parameter wins. -/
def fromSelector (parsers : SelectorParsers) (params : String) :
    Except Error ReplayFilters :=
  (recognised params).foldlM (apply parsers) {}

/-- Whether key-scoped filtering is active. -/
def hasKeyFilter (filters : ReplayFilters) : Bool :=
  filters.key.isSome || filters.keyPrefix.isSome

/-- Match an application key; an exact key takes precedence over a prefix. -/
def matchesKey (filters : ReplayFilters) (appKey : Option String) : Bool :=
  match filters.key with
  | some exact => appKey = some exact
  | none =>
    match filters.keyPrefix with
    | some leading =>
      match appKey with
      | some key => leading.toList.isPrefixOf key.toList
      | none => false
    | none => true

def matchesPublisher
    (filters : ReplayFilters)
    (publisher : PublisherId) : Bool :=
  match filters.publisherId with
  | some wanted => publisher = wanted
  | none => true

end ReplayFilters

/-! ## The two query engines -/

def returnedEvent (metadata : EventMetadata) (payload : Bytes) :
    StoredEvent where
  key := metadata.keyExpr
  payload := payload
  metadata := metadata

/-- Whether an optional exclusive lower bound rejects a value. -/
def atOrBelow [LE α] [DecidableLE α] (bound : Option α) (value : α) : Bool :=
  match bound with
  | some lower => value ≤ lower
  | none => false

/-- Whether an optional exclusive upper bound rejects a value. -/
def atOrAbove [LE α] [DecidableLE α] (bound : Option α) (value : α) : Bool :=
  match bound with
  | some upper => upper ≤ value
  | none => false

/--
The loop body of `query`.  Sequence bounds are applied here only when no
publisher is given; the range of keys stands for them otherwise.
-/
def QueryFilters.visit (filters : QueryFilters) (entry : EventEntry) :
    Visit StoredEvent :=
  if filters.publisherId.isNone && atOrBelow filters.afterSeq entry.1.seq then
    .skip
  else if
      filters.publisherId.isNone && atOrAbove filters.beforeSeq entry.1.seq then
    .skip
  else if atOrBelow filters.afterTime entry.2.1.timestamp then
    .skip
  else if atOrAbove filters.beforeTime entry.2.1.timestamp then
    .skip
  else
    .take (returnedEvent entry.2.1 entry.2.2)

/-- The loop body of `query_replay`. -/
def ReplayFilters.visit
    (filters : ReplayFilters)
    (db : Database)
    (entry : ReplayKey × EventKey) : Visit StoredEvent :=
  if atOrBelow filters.afterHlc entry.1.hlc then
    .skip
  else if atOrAbove filters.beforeHlc entry.1.hlc then
    .stop
  else if !filters.matchesPublisher entry.1.publisherId then
    .skip
  else
    match db.events.get? entry.2 with
    | none => .skip
    | some (metadata, payload) =>
      if filters.hasKeyFilter && !filters.matchesKey metadata.key then
        .skip
      else
        .take (returnedEvent metadata payload)

namespace FjallBackend

/--
Scan the events keyspace, or one publisher's range of it.  The lower end of
that range is `after_seq + 1`, which overflows for the largest sequence.
-/
def query (backend : FjallBackend) (filters : QueryFilters) :
    Option (List StoredEvent) :=
  match filters.publisherId with
  | none =>
    some (scan filters.limit filters.visit backend.db.events.entries [])
  | some publisher =>
    if filters.afterSeq.map Fin.val = some u64Max then
      none
    else
      let first : EventKey :=
        ⟨publisher, (filters.afterSeq.map (· + 1)).getD 0⟩
      let last : EventKey :=
        ⟨publisher, (filters.beforeSeq.map fun seq =>
          Fin.ofNat (2 ^ 64) (seq.val - 1)).getD (Fin.last _)⟩
      let range := backend.db.events.entries.filter
        fun entry => first ≤ entry.1 && entry.1 ≤ last
      some (scan filters.limit filters.visit range [])

/-- Scan the replay index in clock order. -/
def queryReplay (backend : FjallBackend) (filters : ReplayFilters) :
    List StoredEvent :=
  scan filters.limit (filters.visit backend.db)
    backend.db.replay.entries []

end FjallBackend

/-- The substring tests that send a selector to the replay index. -/
def routesToReplay (params : String) : Bool :=
  Text.contains params.toList "key=".toList ||
    Text.contains params.toList "key_prefix=".toList ||
    Text.contains params.toList "after_hlc".toList ||
    Text.contains params.toList "publisher_id".toList

/-- The events the queryable replies with; a rejected selector gets none. -/
def FjallBackend.answer
    (parsers : SelectorParsers)
    (backend : FjallBackend)
    (params : String) : List StoredEvent :=
  if routesToReplay params then
    match ReplayFilters.fromSelector parsers params with
    | .ok filters => backend.queryReplay filters
    | .error _ => []
  else
    match QueryFilters.fromSelector parsers params with
    | .ok filters => (backend.query filters).getD []
    | .error _ => []

end Mitiflow
