import Mitiflow.StoreQuery

namespace Mitiflow

open Library

/-!
# Which filters the queryable honours

The parameters of a selector, whichever filter type recognises them, state
what a replied event should satisfy.  This module characterises the selectors
for which every reply from every reachable store state does satisfy them.
-/

/-- A replied event satisfies every parameter present in a selector. -/
structure Honours
    (query : QueryFilters)
    (replay : ReplayFilters)
    (event : StoredEvent) : Prop where
  afterSeq : ∀ seq, query.afterSeq = some seq → seq < event.metadata.seq
  beforeSeq : ∀ seq, query.beforeSeq = some seq → event.metadata.seq < seq
  afterTime :
    ∀ time, query.afterTime = some time → time < event.metadata.timestamp
  beforeTime :
    ∀ time, query.beforeTime = some time → event.metadata.timestamp < time
  publisherId :
    ∀ publisher,
      query.publisherId = some publisher →
      event.metadata.publisherId = publisher
  key : ∀ key, replay.key = some key → event.metadata.key = some key
  keyPrefix :
    ∀ leading,
      replay.keyPrefix = some leading →
      ∃ key, event.metadata.key = some key ∧ leading.toList <+: key.toList
  afterHlc :
    ∀ bound,
      replay.afterHlc = some bound →
      ∃ hlc, event.metadata.hlcTimestamp = some hlc ∧ bound < hlc
  beforeHlc :
    ∀ bound,
      replay.beforeHlc = some bound →
      ∃ hlc, event.metadata.hlcTimestamp = some hlc ∧ hlc < bound

/-- A reply honours a selector: every event does, and the limit is kept. -/
def RepliesHonour
    (query : QueryFilters)
    (replay : ReplayFilters)
    (replies : List StoredEvent) : Prop :=
  (∀ event ∈ replies, Honours query replay event) ∧
    ∀ limit, query.limit = some limit → replies.length ≤ limit

section Honoured

variable
    {query : QueryFilters}
    {replay : ReplayFilters}

theorem RepliesHonour.of_forall_not_mem
    {replies : List StoredEvent}
    (absent : ∀ event, event ∉ replies) :
    RepliesHonour query replay replies := by
  constructor
  · intro event member
    exact absurd member (absent event)
  · intro limit _
    rw [List.eq_nil_iff_forall_not_mem.mpr absent]
    exact Nat.zero_le limit

theorem RepliesHonour.limit_ne_zero
    {event : StoredEvent}
    (replied : RepliesHonour query replay [event]) :
    query.limit ≠ some 0 := by
  intro isZero
  have bounded := replied.2 0 isZero
  simp at bounded

/-- An event without clock value honours no bound on the clock. -/
theorem Honours.no_clock_bounds
    {event : StoredEvent}
    (honoured : Honours query replay event)
    (unstamped : event.metadata.hlcTimestamp = none) :
    replay.afterHlc = none ∧ replay.beforeHlc = none := by
  constructor
  · apply Option.eq_none_iff_forall_ne_some.mpr
    intro bound isBound
    obtain ⟨hlc, stamped, _⟩ := honoured.afterHlc bound isBound
    rw [unstamped] at stamped
    cases stamped
  · apply Option.eq_none_iff_forall_ne_some.mpr
    intro bound isBound
    obtain ⟨hlc, stamped, _⟩ := honoured.beforeHlc bound isBound
    rw [unstamped] at stamped
    cases stamped

end Honoured

/-! ## Parsing the same selector twice -/

theorem exists_of_map_eq_ok
    {result : Except ε α}
    {wrap : α → β}
    {wrapped : β}
    (mapped : result.map wrap = .ok wrapped) :
    ∃ value, result = .ok value ∧ wrap value = wrapped := by
  cases result with
  | error failure =>
    cases mapped
  | ok value =>
    exact ⟨value, rfl, Except.ok.inj mapped⟩

variable {parameter : Parameter} {value : List Char} {parsers : SelectorParsers}
  {filters replay : ReplayFilters} {query : QueryFilters} {event : StoredEvent}

/-- A recognised parameter's spelling occurs in the selector. -/
theorem name_infix_of_mem_recognised
    {params : String}
    (member : (parameter, value) ∈ recognised params) :
    parameter.name.toList <:+: params.toList := by
  obtain ⟨part, isPart, parsed⟩ := List.mem_filterMap.mp member
  unfold parsePart at parsed
  split at parsed
  · cases parsed
  · rename_i name rest cut
    obtain ⟨found, isNamed, shape⟩ := Option.map_eq_some_iff.mp parsed
    have spelled : found.name.toList = Text.trim name := by
      simpa using List.find?_some isNamed
    cases shape
    rw [spelled]
    exact (Text.trim_infix name).trans
      ((Text.fst_prefix_of_splitOnce cut).isInfix.trans
        ((Text.trim_infix part).trans (Text.infix_of_mem_splitOnP isPart)))

theorem QueryFilters.publisherId_apply
    {filters next : QueryFilters}
    (applied : filters.apply parsers (parameter, value) = .ok next)
    (other : parameter ≠ .publisherId) :
    next.publisherId = filters.publisherId := by
  cases parameter with
  | publisherId =>
    exact absurd rfl other
  | afterSeq | beforeSeq | afterTime | beforeTime | limit =>
    obtain ⟨_, _, shape⟩ := exists_of_map_eq_ok applied
    rw [← shape]
  | afterHlc | beforeHlc | key | keyPrefix =>
    cases applied
    rfl

theorem ReplayFilters.afterHlc_apply
    {next : ReplayFilters}
    (applied : filters.apply parsers (parameter, value) = .ok next)
    (other : parameter ≠ .afterHlc) :
    next.afterHlc = filters.afterHlc := by
  cases parameter with
  | afterHlc =>
    exact absurd rfl other
  | beforeHlc | limit | publisherId =>
    obtain ⟨_, _, shape⟩ := exists_of_map_eq_ok applied
    rw [← shape]
  | afterSeq | beforeSeq | afterTime | beforeTime | key | keyPrefix =>
    cases applied
    rfl

/-- The parameters both filter types know. -/
def Agree (query : QueryFilters) (replay : ReplayFilters) : Prop :=
  query.limit = replay.limit ∧ query.publisherId = replay.publisherId

theorem Agree.apply
    {nextQuery : QueryFilters}
    {nextReplay : ReplayFilters}
    (agree : Agree query replay)
    {part : Parameter × List Char}
    (queryApplied : query.apply parsers part = .ok nextQuery)
    (replayApplied : replay.apply parsers part = .ok nextReplay) :
    Agree nextQuery nextReplay := by
  obtain ⟨parameter, value⟩ := part
  cases parameter with
  | limit | publisherId =>
    obtain ⟨parsed, isParsed, queryShape⟩ := exists_of_map_eq_ok queryApplied
    obtain ⟨parsed', isParsed', replayShape⟩ :=
      exists_of_map_eq_ok replayApplied
    rw [isParsed, Except.ok.injEq] at isParsed'
    subst isParsed' queryShape replayShape
    first
      | exact ⟨rfl, agree.2⟩
      | exact ⟨agree.1, rfl⟩
  | afterSeq | beforeSeq | afterTime | beforeTime =>
    obtain ⟨_, _, queryShape⟩ := exists_of_map_eq_ok queryApplied
    cases replayApplied
    subst queryShape
    exact agree
  | afterHlc | beforeHlc =>
    obtain ⟨_, _, replayShape⟩ := exists_of_map_eq_ok replayApplied
    cases queryApplied
    subst replayShape
    exact agree
  | key | keyPrefix =>
    cases queryApplied
    cases replayApplied
    exact agree

/--
Both parses of one selector agree on what both know, and each parameter that
decides the route is recorded only if it is written in the selector.
-/
theorem foldlM_apply_spec
    {parts : List (Parameter × List Char)}
    {nextQuery : QueryFilters}
    {nextReplay : ReplayFilters}
    (agree : Agree query replay)
    (queryParsed : parts.foldlM (QueryFilters.apply parsers) query =
      .ok nextQuery)
    (replayParsed : parts.foldlM (ReplayFilters.apply parsers) replay =
      .ok nextReplay) :
    Agree nextQuery nextReplay ∧
      ((∀ value, (Parameter.publisherId, value) ∉ parts) →
        nextQuery.publisherId = query.publisherId) ∧
      ((∀ value, (Parameter.afterHlc, value) ∉ parts) →
        nextReplay.afterHlc = replay.afterHlc) := by
  induction parts generalizing query replay with
  | nil =>
    cases queryParsed
    cases replayParsed
    exact ⟨agree, fun _ => rfl, fun _ => rfl⟩
  | cons part rest inductionHypothesis =>
    rw [List.foldlM_cons] at queryParsed replayParsed
    cases queryApplied : query.apply parsers part with
    | error failure =>
      rw [queryApplied] at queryParsed
      cases queryParsed
    | ok middleQuery =>
      cases replayApplied : replay.apply parsers part with
      | error failure =>
        rw [replayApplied] at replayParsed
        cases replayParsed
      | ok middleReplay =>
        rw [queryApplied] at queryParsed
        rw [replayApplied] at replayParsed
        obtain ⟨finalAgree, samePublisher, sameBound⟩ :=
          inductionHypothesis
            (agree.apply queryApplied replayApplied)
            queryParsed replayParsed
        refine ⟨finalAgree, ?_, ?_⟩
        · intro absent
          rw [samePublisher fun value member =>
            absent value (List.mem_cons_of_mem _ member)]
          apply QueryFilters.publisherId_apply queryApplied
          intro isPublisher
          exact absent part.2 (by simp [← isPublisher])
        · intro absent
          rw [sameBound fun value member =>
            absent value (List.mem_cons_of_mem _ member)]
          apply ReplayFilters.afterHlc_apply replayApplied
          intro isBound
          exact absent part.2 (by simp [← isBound])

section Selector

variable
    {parsers : SelectorParsers}
    {params : String}
    {query : QueryFilters}
    {replay : ReplayFilters}

theorem agree_fromSelector
    (queryParsed : QueryFilters.fromSelector parsers params = .ok query)
    (replayParsed : ReplayFilters.fromSelector parsers params = .ok replay) :
    Agree query replay :=
  (foldlM_apply_spec ⟨rfl, rfl⟩ queryParsed replayParsed).1

/-- A parameter whose name is a route marker is absent on the query route. -/
theorem not_mem_recognised_of_contains
    {parameter : Parameter}
    (unmarked :
      Text.contains params.toList parameter.name.toList = false)
    (value : List Char) :
    (parameter, value) ∉ recognised params := by
  intro member
  exact of_decide_eq_false unmarked (name_infix_of_mem_recognised member)

/-- The query route never sees a publisher or a lower clock bound. -/
theorem absent_on_queryRoute
    (queryParsed : QueryFilters.fromSelector parsers params = .ok query)
    (replayParsed : ReplayFilters.fromSelector parsers params = .ok replay)
    (queryRoute : routesToReplay params = false) :
    query.publisherId = none ∧ replay.afterHlc = none := by
  simp only [routesToReplay, Bool.or_eq_false_iff] at queryRoute
  obtain ⟨⟨_, noBound⟩, noPublisher⟩ := queryRoute
  obtain ⟨_, samePublisher, sameBound⟩ :=
    foldlM_apply_spec ⟨rfl, rfl⟩ queryParsed replayParsed
  exact ⟨samePublisher (not_mem_recognised_of_contains noPublisher),
    sameBound (not_mem_recognised_of_contains noBound)⟩

end Selector

/-! ## What each engine checks -/

theorem lt_of_atOrBelow_eq_false
    [LinearOrder α]
    {bound : Option α}
    {value lower : α}
    (inside : atOrBelow bound value = false)
    (isBound : bound = some lower) :
    lower < value := by
  subst isBound
  exact not_le.mp (of_decide_eq_false inside)

theorem lt_of_atOrAbove_eq_false
    [LinearOrder α]
    {bound : Option α}
    {value upper : α}
    (inside : atOrAbove bound value = false)
    (isBound : bound = some upper) :
    value < upper := by
  subst isBound
  exact not_le.mp (of_decide_eq_false inside)

/-- Whatever `query` takes is within every bound the filter type has. -/
theorem QueryFilters.visit_eq_take_iff
    {filters : QueryFilters}
    (anyPublisher : filters.publisherId = none)
    {entry : EventEntry} :
    filters.visit entry = .take event ↔
      (atOrBelow filters.afterSeq entry.1.seq = false ∧
        atOrAbove filters.beforeSeq entry.1.seq = false ∧
        atOrBelow filters.afterTime entry.2.1.timestamp = false ∧
        atOrAbove filters.beforeTime entry.2.1.timestamp = false) ∧
      event = returnedEvent entry.2.1 entry.2.2 := by
  unfold QueryFilters.visit
  simp only [anyPublisher, Option.isNone_none, Bool.true_and]
  split_ifs with belowSeq aboveSeq belowTime aboveTime
  · simp [belowSeq]
  · simp [aboveSeq]
  · simp [belowTime]
  · simp [aboveTime]
  · simp only [Bool.not_eq_true] at belowSeq aboveSeq belowTime aboveTime
    simp only [belowSeq, aboveSeq, belowTime, aboveTime, Visit.take.injEq,
      and_self, true_and]
    exact eq_comm

/-- Whatever `query_replay` takes was looked up and passed its filters. -/
theorem ReplayFilters.visit_eq_take_iff
    {db : Database}
    {entry : ReplayKey × EventKey} :
    filters.visit db entry = .take event ↔
      (atOrBelow filters.afterHlc entry.1.hlc = false ∧
        atOrAbove filters.beforeHlc entry.1.hlc = false ∧
        filters.matchesPublisher entry.1.publisherId = true) ∧
      ∃ value,
        db.events.get? entry.2 = some value ∧
        filters.matchesKey value.1.key = true ∧
        event = returnedEvent value.1 value.2 := by
  have unfiltered (appKey : Option String) :
      filters.hasKeyFilter = false → filters.matchesKey appKey = true := by
    intro noFilter
    simp only [hasKeyFilter, Bool.or_eq_false_iff, Option.isSome_eq_false_iff,
      Option.isNone_iff_eq_none] at noFilter
    simp [matchesKey, noFilter.1, noFilter.2]
  unfold ReplayFilters.visit
  split_ifs with below above otherPublisher
  · simp [below]
  · simp [above]
  · simp only [Bool.not_eq_eq_eq_not] at otherPublisher
    simp [otherPublisher]
  · have samePublisher :
        filters.matchesPublisher entry.1.publisherId = true := by
      simpa using otherPublisher
    simp only [Bool.not_eq_true] at below above
    cases found : db.events.get? entry.2 with
    | none =>
      simp
    | some value =>
      cases filtered : filters.hasKeyFilter with
      | false =>
        grind
      | true =>
        grind

/-! ## The replay route -/

/-- Some clock value lies within the clock bounds of a selector. -/
def ReplayFilters.AllowsClock (filters : ReplayFilters) : Prop :=
  ∃ hlc : HlcTimestamp,
    atOrBelow filters.afterHlc hlc = false ∧
      atOrAbove filters.beforeHlc hlc = false

/--
The selectors whose parameters all survive the replay route.  A bound on the
clock is among those that do not: the index is searched by the clock value an
event was first stored with, and the event may have been stored again since.
-/
structure HonouredByReplay
    (query : QueryFilters)
    (replay : ReplayFilters) : Prop where
  afterSeq : query.afterSeq = none
  beforeSeq : query.beforeSeq = none
  afterTime : query.afterTime = none
  beforeTime : query.beforeTime = none
  afterHlc : replay.afterHlc = none
  beforeHlc : replay.beforeHlc = none
  keyPrefix :
    ∀ key leading,
      replay.key = some key →
      replay.keyPrefix = some leading →
      leading.toList <+: key.toList
  limit : query.limit ≠ some 0

variable {backend : FjallBackend}

theorem FjallBackend.mem_queryReplay
    (wellFormed : backend.db.WellFormed)
    (member : event ∈ backend.queryReplay filters) :
    filters.AllowsClock ∧
      filters.matchesPublisher event.metadata.publisherId = true ∧
      filters.matchesKey event.metadata.key = true := by
  obtain ⟨entry, indexed, taken⟩ := mem_scan member
  obtain ⟨⟨above, below, fromPublisher⟩, value, found, keyMatches, shape⟩ :=
    ReplayFilters.visit_eq_take_iff.mp taken
  have targetShape := wellFormed.replay entry indexed
  have valueShape :=
    wellFormed.events (entry.2, value) (OrderedMap.get?_eq_some.mp found)
  have samePublisher : value.1.publisherId = entry.1.publisherId := by
    have sameKey := valueShape.trans targetShape
    exact congrArg EventKey.publisherId sameKey
  subst shape
  refine ⟨⟨entry.1.hlc, above, below⟩, ?_, keyMatches⟩
  change filters.matchesPublisher value.1.publisherId = true
  rw [samePublisher]
  exact fromPublisher

/-- An exact key and a prefix of it are both honoured by `matches_key`. -/
theorem ReplayFilters.matchesKey_spec
    {appKey : Option String}
    (matched : filters.matchesKey appKey = true) :
    (∀ key, filters.key = some key → appKey = some key) ∧
      (filters.key = none →
        ∀ leading,
          filters.keyPrefix = some leading →
          ∃ key, appKey = some key ∧ leading.toList <+: key.toList) := by
  constructor
  · intro key isKey
    simpa [matchesKey, isKey] using matched
  · intro noKey leading isPrefix
    cases appKey with
    | none =>
      simp [matchesKey, noKey, isPrefix] at matched
    | some key =>
      refine ⟨key, rfl, ?_⟩
      simpa [matchesKey, noKey, isPrefix] using matched

theorem HonouredByReplay.repliesHonour
    (honoured : HonouredByReplay query replay)
    (agree : Agree query replay)
    (wellFormed : backend.db.WellFormed) :
    RepliesHonour query replay (backend.queryReplay replay) := by
  constructor
  · intro event member
    obtain ⟨_, fromPublisher, keyMatches⟩ :=
      FjallBackend.mem_queryReplay wellFormed member
    obtain ⟨exactKey, leadingKey⟩ := ReplayFilters.matchesKey_spec keyMatches
    refine
      { afterSeq := by simp [honoured.afterSeq]
        beforeSeq := by simp [honoured.beforeSeq]
        afterTime := by simp [honoured.afterTime]
        beforeTime := by simp [honoured.beforeTime]
        publisherId := ?_
        key := exactKey
        keyPrefix := ?_
        afterHlc := by simp [honoured.afterHlc]
        beforeHlc := by simp [honoured.beforeHlc] }
    · intro publisher isPublisher
      rw [agree.2] at isPublisher
      simpa [ReplayFilters.matchesPublisher, isPublisher] using fromPublisher
    · intro leading isPrefix
      cases isKey : replay.key with
      | none =>
        exact leadingKey isKey leading isPrefix
      | some key =>
        exact ⟨key, exactKey key isKey,
          honoured.keyPrefix key leading isKey isPrefix⟩
  · grind [agree.1, FjallBackend.queryReplay, honoured.limit, length_scan_le]

/-- An event of publisher `publisher` on partition zero. -/
def stampedEvent
    (publisher : PublisherId)
    (seq : U64)
    (time : DateTime)
    (key : Option String)
    (hlc : Option HlcTimestamp) : StoredEvent :=
  { plainEvent publisher seq with
    metadata :=
      { (plainEvent publisher seq).metadata with
        timestamp := time
        key := key
        hlcTimestamp := hlc } }

/-- Store an event with a clock value, then again without one. -/
def restored
    (publisher : PublisherId)
    (seq : U64)
    (time : DateTime)
    (key : Option String)
    (hlc : HlcTimestamp) : List StoreAction :=
  [.store (.store (stampedEvent publisher seq time key (some hlc))),
    .store (.store (stampedEvent publisher seq time key none))]

/-- The replay index still finds an event that lost its clock value. -/
theorem queryReplay_restored
    {hlc : HlcTimestamp}
    (above : atOrBelow filters.afterHlc hlc = false)
    (below : atOrAbove filters.beforeHlc hlc = false)
    {publisher : PublisherId}
    (fromPublisher : filters.matchesPublisher publisher = true)
    {key : Option String}
    (keyMatches : filters.matchesKey key = true)
    (seq : U64)
    (time : DateTime) :
    (FjallBackend.afterActions 0
        (restored publisher seq time key hlc)).queryReplay filters =
      [stampedEvent publisher seq time key none] := by
  let backend :=
    FjallBackend.afterActions 0 (restored publisher seq time key hlc)
  have indexed :
      backend.db.replay.entries = [(⟨hlc, publisher, seq⟩, ⟨publisher, seq⟩)] :=
    rfl
  have found :
      backend.db.events.get? ⟨publisher, seq⟩ =
        some ((stampedEvent publisher seq time key none).metadata, []) := by
    change ((OrderedMap.insert _ _ _).get? _) = _
    rw [OrderedMap.get?_insert]
    exact if_pos rfl
  change scan _ (filters.visit backend.db) backend.db.replay.entries [] = _
  rw [indexed]
  apply scan_singleton
  exact ReplayFilters.visit_eq_take_iff.mpr
    ⟨⟨above, below, fromPublisher⟩, _, found, keyMatches, rfl⟩

/-- An application key that passes the key filters of a selector. -/
def ReplayFilters.sampleKey (filters : ReplayFilters) : Option String :=
  filters.key.or filters.keyPrefix

theorem ReplayFilters.matchesKey_sampleKey (filters : ReplayFilters) :
    filters.matchesKey filters.sampleKey = true := by
  unfold matchesKey sampleKey
  cases filters.key with
  | some key =>
    simp
  | none =>
    cases filters.keyPrefix with
    | some leading =>
      simp
    | none =>
      rfl

theorem ReplayFilters.matchesPublisher_getD (filters : ReplayFilters) :
    filters.matchesPublisher (filters.publisherId.getD 0) = true := by
  unfold matchesPublisher
  cases filters.publisherId with
  | some publisher =>
    simp
  | none =>
    rfl

/--
If some clock value is allowed, events of every sequence and time can be
replied, so a parameter that is always honoured cannot be present at all.
-/
theorem honouredByReplay_of_repliesHonour
    (allows : replay.AllowsClock)
    (honours :
      ∀ actions,
        RepliesHonour query replay
          ((FjallBackend.afterActions 0 actions).queryReplay replay)) :
    HonouredByReplay query replay := by
  obtain ⟨hlc, above, below⟩ := allows
  let publisher := replay.publisherId.getD 0
  have replied (seq : U64) (time : DateTime) :
      RepliesHonour query replay
        [stampedEvent publisher seq time replay.sampleKey none] := by
    have reached := honours (restored publisher seq time replay.sampleKey hlc)
    rwa [queryReplay_restored above below replay.matchesPublisher_getD
      replay.matchesKey_sampleKey] at reached
  have honoured (seq : U64) (time : DateTime) :
      Honours query replay
        (stampedEvent publisher seq time replay.sampleKey none) :=
    (replied seq time).1 _ (List.mem_singleton.mpr rfl)
  obtain ⟨noLower, noUpper⟩ := (honoured 0 0).no_clock_bounds rfl
  refine
    { afterSeq := ?_, beforeSeq := ?_, afterTime := ?_, beforeTime := ?_,
      afterHlc := noLower, beforeHlc := noUpper, keyPrefix := ?_,
      limit := (replied 0 0).limit_ne_zero }
  · apply Option.eq_none_iff_forall_ne_some.mpr
    intro seq isBound
    exact lt_irrefl _ ((honoured seq 0).afterSeq seq isBound)
  · apply Option.eq_none_iff_forall_ne_some.mpr
    intro seq isBound
    exact lt_irrefl _ ((honoured seq 0).beforeSeq seq isBound)
  · apply Option.eq_none_iff_forall_ne_some.mpr
    intro time isBound
    exact lt_irrefl _ ((honoured 0 time).afterTime time isBound)
  · apply Option.eq_none_iff_forall_ne_some.mpr
    intro time isBound
    exact lt_irrefl _ ((honoured 0 time).beforeTime time isBound)
  · intro key leading isKey isPrefix
    obtain ⟨found, isFound, leads⟩ := (honoured 0 0).keyPrefix leading isPrefix
    have sameKey : some key = some found := by
      rw [← (honoured 0 0).key key isKey]
      exact isFound
    cases sameKey
    exact leads

/-! ## The query route -/

/-- Some sequence and time lie within the bounds of a selector. -/
def QueryFilters.AllowsEvent (filters : QueryFilters) : Prop :=
  ∃ (seq : U64) (time : DateTime),
    atOrBelow filters.afterSeq seq = false ∧
      atOrAbove filters.beforeSeq seq = false ∧
      atOrBelow filters.afterTime time = false ∧
      atOrAbove filters.beforeTime time = false

/-- The selectors whose parameters all survive the query route. -/
structure HonouredByQuery
    (query : QueryFilters)
    (replay : ReplayFilters) : Prop where
  beforeHlc : replay.beforeHlc = none
  key : replay.key = none
  keyPrefix : replay.keyPrefix = none
  limit : query.limit ≠ some 0

section QueryRoute

variable
    {query : QueryFilters}
    {replay : ReplayFilters}

theorem FjallBackend.query_eq
    (backend : FjallBackend)
    (anyPublisher : query.publisherId = none) :
    (backend.query query).getD [] =
      scan query.limit query.visit backend.db.events.entries [] := by
  simp [FjallBackend.query, anyPublisher]

theorem FjallBackend.mem_query
    (wellFormed : backend.db.WellFormed)
    (anyPublisher : query.publisherId = none)
    {event : StoredEvent}
    (member : event ∈ (backend.query query).getD []) :
    atOrBelow query.afterSeq event.metadata.seq = false ∧
      atOrAbove query.beforeSeq event.metadata.seq = false ∧
      atOrBelow query.afterTime event.metadata.timestamp = false ∧
      atOrAbove query.beforeTime event.metadata.timestamp = false := by
  rw [FjallBackend.query_eq backend anyPublisher] at member
  obtain ⟨entry, stored, taken⟩ := mem_scan member
  obtain ⟨inside, shape⟩ :=
    (QueryFilters.visit_eq_take_iff anyPublisher).mp taken
  have sameSeq : entry.2.1.seq = entry.1.seq :=
    congrArg EventKey.seq (wellFormed.events entry stored)
  subst shape
  change atOrBelow query.afterSeq entry.2.1.seq = false ∧
    atOrAbove query.beforeSeq entry.2.1.seq = false ∧ _
  rw [sameSeq]
  exact inside

theorem HonouredByQuery.repliesHonour
    (honoured : HonouredByQuery query replay)
    (anyPublisher : query.publisherId = none)
    (noClockBound : replay.afterHlc = none)
    (wellFormed : backend.db.WellFormed) :
    RepliesHonour query replay ((backend.query query).getD []) := by
  constructor
  · intro event member
    obtain ⟨aboveSeq, belowSeq, aboveTime, belowTime⟩ :=
      FjallBackend.mem_query wellFormed anyPublisher member
    exact
      { afterSeq := fun _ => lt_of_atOrBelow_eq_false aboveSeq
        beforeSeq := fun _ => lt_of_atOrAbove_eq_false belowSeq
        afterTime := fun _ => lt_of_atOrBelow_eq_false aboveTime
        beforeTime := fun _ => lt_of_atOrAbove_eq_false belowTime
        publisherId := by simp [anyPublisher]
        key := by simp [honoured.key]
        keyPrefix := by simp [honoured.keyPrefix]
        afterHlc := by simp [noClockBound]
        beforeHlc := by simp [honoured.beforeHlc] }
  · grind [honoured.limit, FjallBackend.query_eq, length_scan_le]

/-- An event without clock value or key shows what the query route ignores. -/
theorem honouredByQuery_of_repliesHonour
    (anyPublisher : query.publisherId = none)
    (allows : query.AllowsEvent)
    (honours :
      ∀ actions,
        RepliesHonour query replay
          (((FjallBackend.afterActions 0 actions).query query).getD [])) :
    HonouredByQuery query replay := by
  obtain ⟨seq, time, inside⟩ := allows
  let event := stampedEvent 0 seq time none none
  have replied : RepliesHonour query replay [event] := by
    have reached := honours [.store (.store event)]
    rw [FjallBackend.query_eq _ anyPublisher] at reached
    have taken :
        query.visit (event.metadata.eventKey, (event.metadata, [])) =
          .take event :=
      (QueryFilters.visit_eq_take_iff anyPublisher).mpr ⟨inside, rfl⟩
    have returned := scan_singleton query.limit taken
    rwa [← returned]
  have honoured := replied.1 event (List.mem_singleton.mpr rfl)
  refine
    { beforeHlc := (honoured.no_clock_bounds rfl).2, key := ?_,
      keyPrefix := ?_, limit := replied.limit_ne_zero }
  · apply Option.eq_none_iff_forall_ne_some.mpr
    intro key isKey
    cases honoured.key key isKey
  · apply Option.eq_none_iff_forall_ne_some.mpr
    intro leading isPrefix
    obtain ⟨_, keyed, _⟩ := honoured.keyPrefix leading isPrefix
    cases keyed

end QueryRoute

/-! ## The queryable -/

/--
The selectors whose parameters the route chosen for them honours: no event can
match its bounds, or nothing the route ignores is present.
-/
def SelectorHonoured
    (params : String)
    (query : QueryFilters)
    (replay : ReplayFilters) : Prop :=
  if routesToReplay params then
    replay.AllowsClock → HonouredByReplay query replay
  else
    query.AllowsEvent → HonouredByQuery query replay

/--
For a selector that both filter types parse, every reply from every reachable
store state honours all its parameters exactly when the parameters present are
those its route does not ignore.
-/
theorem answer_honours_iff
    (parsers : SelectorParsers)
    (params : String)
    (query : QueryFilters)
    (replay : ReplayFilters)
    (queryParsed : QueryFilters.fromSelector parsers params = .ok query)
    (replayParsed : ReplayFilters.fromSelector parsers params = .ok replay) :
    (∀ partition actions,
        RepliesHonour query replay
          ((FjallBackend.afterActions partition actions).answer
            parsers params)) ↔
      SelectorHonoured params query replay := by
  have agree := agree_fromSelector queryParsed replayParsed
  unfold SelectorHonoured
  cases route : routesToReplay params with
  | true =>
    simp only [FjallBackend.answer, route, replayParsed, ↓reduceIte]
    constructor
    · intro honours allows
      exact honouredByReplay_of_repliesHonour allows (honours 0)
    · intro honoured partition actions
      have wellFormed := FjallBackend.wellFormed_afterActions partition actions
      by_cases allows : replay.AllowsClock
      · exact (honoured allows).repliesHonour agree wellFormed
      · apply RepliesHonour.of_forall_not_mem
        intro event member
        exact allows (FjallBackend.mem_queryReplay wellFormed member).1
  | false =>
    obtain ⟨anyPublisher, noClockBound⟩ :=
      absent_on_queryRoute queryParsed replayParsed route
    simp only [FjallBackend.answer, route, queryParsed, Bool.false_eq_true,
      ↓reduceIte]
    constructor
    · intro honours allows
      exact honouredByQuery_of_repliesHonour anyPublisher allows (honours 0)
    · intro honoured partition actions
      have wellFormed := FjallBackend.wellFormed_afterActions partition actions
      by_cases allows : query.AllowsEvent
      · exact (honoured allows).repliesHonour
          anyPublisher noClockBound wellFormed
      · apply RepliesHonour.of_forall_not_mem
        intro event member
        exact allows ⟨_, _,
          FjallBackend.mem_query wellFormed anyPublisher member⟩

/-- Parsers that read identifiers and dates as decimal numbers. -/
def decimalParsers : SelectorParsers where
  uuid := fun text => (decimal u64Max text).map (Fin.ofNat (2 ^ 128))
  dateTime := fun text => (decimal u64Max text).map Int.ofNat

/-- Sequence bounds with a positive limit are honoured. -/
theorem answer_honours_sequenceBounds :
    RepliesHonour
      { afterSeq := some 2, beforeSeq := some 9, limit := some 4 }
      { limit := some 4 }
      ((FjallBackend.afterActions 0
          [.store (.store (plainEvent 7 1)),
            .store (.store (plainEvent 7 5))]).answer
        decimalParsers "after_seq=2;before_seq=9&limit=4") := by
  refine (answer_honours_iff decimalParsers
    "after_seq=2;before_seq=9&limit=4" _ _ (by decide) (by decide)).mpr ?_ 0 _
  intro _
  exact
    { beforeHlc := rfl
      key := rfl
      keyPrefix := rfl
      limit := by decide }

/--
A publisher together with a lower sequence bound: the selector is sent to the
replay index, which ignores the bound and replies with sequence zero.
-/
theorem publisher_with_afterSeq_ignored :
    QueryFilters.fromSelector decimalParsers "publisher_id=7&after_seq=5" =
        .ok { publisherId := some 7, afterSeq := some 5 } ∧
      ((FjallBackend.afterActions 0
          [.store (.store
            (stampedEvent 7 0 0 none (some ⟨1, 0⟩)))]).answer
          decimalParsers "publisher_id=7&after_seq=5").map
        (fun event => event.metadata.seq) = [0] := by
  decide

end Mitiflow
