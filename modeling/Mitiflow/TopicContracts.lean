import Mitiflow.Library.GuardedRun
import Mitiflow.Types

namespace Mitiflow

open Library List Function

/-!
# Wire contracts of topics

A topic has a codec, a number of partitions and a key format, under a version
that is meant to change whenever they do.  The orchestrator stores whatever a
request asks for; storage agents keep the schemas that they receive behind a
check of the version.  This module says which requests keep the two sides from
contradicting each other.

Labels and policies are carried along; timestamps of schemas are left out.
-/

/-- Serialization of events. -/
inductive CodecFormat where
  | json
  | msgPack
  | postcard
  deriving Repr, DecidableEq

/-- Whether events carry application keys. -/
inductive KeyFormat where
  | unkeyed
  | keyed
  | keyPrefix
  deriving Repr, DecidableEq

/-- Retention policy of a topic. -/
structure RetentionPolicy where
  maxAge : Option Nat := none
  maxBytes : Option U64 := none
  maxEvents : Option U64 := none
  deriving Repr, DecidableEq

/-- Compaction policy of a topic. -/
structure CompactionPolicy where
  enabled : Bool := false
  interval : Option Nat := none
  deriving Repr, DecidableEq

/-- The fields that all participants of a topic must agree on. -/
structure WireContract where
  codec : CodecFormat
  numPartitions : U32
  keyFormat : KeyFormat
  deriving Repr, DecidableEq

/-- Topic configuration managed by the orchestrator. -/
structure TopicConfig extends WireContract where
  name : String
  keyPrefix : String
  replicationFactor : U32
  retention : RetentionPolicy
  compaction : CompactionPolicy
  requiredLabels : List (String × String)
  excludedLabels : List (String × String)
  schemaVersion : U32
  deriving Repr, DecidableEq

/-- The schema of a topic, as it is published. -/
structure TopicSchema extends WireContract where
  name : String
  keyPrefix : String
  schemaVersion : U32
  deriving Repr, DecidableEq

/-- Request body for creating a topic. -/
structure CreateTopicRequest where
  name : String
  keyPrefix : String := ""
  numPartitions : U32 := 16
  replicationFactor : U32 := 1
  requiredLabels : List (String × String) := []
  excludedLabels : List (String × String) := []
  codec : CodecFormat := .postcard
  keyFormat : KeyFormat := .unkeyed
  schemaVersion : U32 := 0
  deriving Repr, DecidableEq

/-- Request body for updating a topic; it has no number of partitions. -/
structure UpdateTopicRequest where
  replicationFactor : Option U32 := none
  retention : Option RetentionPolicy := none
  compaction : Option CompactionPolicy := none
  requiredLabels : Option (List (String × String)) := none
  excludedLabels : Option (List (String × String)) := none
  codec : Option CodecFormat := none
  keyFormat : Option KeyFormat := none
  schemaVersion : Option U32 := none
  deriving Repr, DecidableEq

/-- Errors of the request handlers. -/
inductive AppError where
  | notFound (message : String)
  deriving Repr, DecidableEq

/-! ## The orchestrator -/

/-- The configuration that a create request asks for. -/
def CreateTopicRequest.config (request : CreateTopicRequest) :
    TopicConfig where
  name := request.name
  keyPrefix := request.keyPrefix
  numPartitions := request.numPartitions
  replicationFactor := request.replicationFactor
  retention := {}
  compaction := {}
  requiredLabels := request.requiredLabels
  excludedLabels := request.excludedLabels
  codec := request.codec
  keyFormat := request.keyFormat
  schemaVersion := request.schemaVersion

/-- The configuration after an update request. -/
def UpdateTopicRequest.applyTo
    (request : UpdateTopicRequest)
    (config : TopicConfig) : TopicConfig :=
  { config with
    replicationFactor :=
      request.replicationFactor.getD config.replicationFactor
    retention := request.retention.getD config.retention
    compaction := request.compaction.getD config.compaction
    requiredLabels := request.requiredLabels.getD config.requiredLabels
    excludedLabels := request.excludedLabels.getD config.excludedLabels
    codec := request.codec.getD config.codec
    keyFormat := request.keyFormat.getD config.keyFormat
    schemaVersion := request.schemaVersion.getD config.schemaVersion }

/-- Version zero is reserved for "unset" and counts as one. -/
def publishedVersion (version : U32) : U32 :=
  if version = 0 then 1 else version

/-- The schema that is published or replied for a configuration. -/
def TopicConfig.schema
    (config : TopicConfig)
    (orchestratorPrefix : String) : TopicSchema where
  toWireContract := config.toWireContract
  name := config.name
  keyPrefix :=
    if config.keyPrefix = "" then orchestratorPrefix else config.keyPrefix
  schemaVersion := publishedVersion config.schemaVersion

/-- Topic configurations by name. -/
structure ConfigStore where
  topics : String → Option TopicConfig := fun _ => none

def ConfigStore.putTopic (store : ConfigStore) (config : TopicConfig) :
    ConfigStore where
  topics := update store.topics config.name (some config)

/-- A request to the orchestrator that stores a configuration. -/
inductive TopicRequest where
  | createTopic (request : CreateTopicRequest)
  | updateTopic (name : String) (request : UpdateTopicRequest)
  | orchestratorCreate (config : TopicConfig)
  deriving Repr, DecidableEq

/-- The configuration that a request stores. -/
def TopicRequest.stores (request : TopicRequest) (store : ConfigStore) :
    Except AppError TopicConfig :=
  match request with
  | .createTopic request => .ok request.config
  | .updateTopic name request =>
    match store.topics name with
    | none => .error (.notFound ("topic '" ++ name ++ "' not found"))
    | some config => .ok (request.applyTo config)
  | .orchestratorCreate config =>
    .ok { config with schemaVersion := publishedVersion config.schemaVersion }

def ConfigStore.handle (store : ConfigStore) (request : TopicRequest) :
    ConfigStore × Except AppError TopicConfig :=
  match request.stores store with
  | .ok config => (store.putTopic config, .ok config)
  | .error failure => (store, .error failure)

/-! ## Agents -/

abbrev SchemaStore := String → Option TopicSchema

namespace SchemaStore

def put (store : SchemaStore) (schema : TopicSchema) : SchemaStore :=
  update store schema.keyPrefix (some schema)

/-- Store a schema unless it is older or in conflict with the stored one. -/
def putIfNewer (store : SchemaStore) (schema : TopicSchema) :
    SchemaStore × Bool :=
  match store schema.keyPrefix with
  | none => (store.put schema, true)
  | some existing =>
    if schema.schemaVersion < existing.schemaVersion then
      (store, false)
    else if schema.schemaVersion = existing.schemaVersion then
      if schema.codec = existing.codec ∧
          schema.numPartitions = existing.numPartitions ∧
          schema.keyFormat = existing.keyFormat then
        (store, true)
      else
        (store, false)
    else
      (store.put schema, true)

/-- A schema may stand where another one stood. -/
def Follows (later earlier : TopicSchema) : Prop :=
  earlier.schemaVersion ≤ later.schemaVersion ∧
    (earlier.schemaVersion = later.schemaVersion →
      earlier.toWireContract = later.toWireContract)

theorem Follows.trans
    {first second third : TopicSchema}
    (later : Follows third second)
    (earlier : Follows second first) :
    Follows third first := by
  refine ⟨earlier.1.trans later.1, fun same => ?_⟩
  have sameFirst := le_antisymm earlier.1 (same ▸ later.1)
  exact (earlier.2 sameFirst).trans (later.2 (sameFirst.symm.trans same))

/-- What a call leaves under its prefix, and what it says of that. -/
theorem putIfNewer_spec (store : SchemaStore) (schema : TopicSchema) :
    ∃ held,
      (store.putIfNewer schema).1 =
          update store schema.keyPrefix (some held) ∧
        (held = schema ∨ store schema.keyPrefix = some held) ∧
        schema.schemaVersion ≤ held.schemaVersion ∧
        (∀ existing ∈ store schema.keyPrefix, Follows held existing) ∧
        ((store.putIfNewer schema).2 = true →
          Follows schema held ∧ Follows held schema) := by
  unfold putIfNewer
  cases stored : store schema.keyPrefix with
  | none =>
    exact ⟨schema, rfl, Or.inl rfl, le_rfl, by simp, fun _ =>
      ⟨⟨le_rfl, fun _ => rfl⟩, le_rfl, fun _ => rfl⟩⟩
  | some existing =>
    have unchanged :
        store = update store schema.keyPrefix (some existing) := by
      rw [← stored, update_eq_self]
    have kept : ∀ other ∈ some existing, Follows existing other := by
      simp [Follows]
    simp only
    split
    · next older =>
        exact ⟨existing, unchanged, Or.inr rfl, le_of_lt older, kept, by simp⟩
    · next notOlder =>
        split
        · next same =>
            split
            · next agrees =>
                have contract :
                    schema.toWireContract = existing.toWireContract :=
                  (WireContract.mk.injEq ..).mpr agrees
                exact ⟨existing, unchanged, Or.inr rfl, same.le, kept,
                  fun _ => ⟨⟨same.ge, fun _ => contract.symm⟩, same.le,
                    fun _ => contract⟩⟩
            · exact ⟨existing, unchanged, Or.inr rfl, same.le, kept, by simp⟩
        · next differs =>
            refine ⟨schema, rfl, Or.inl rfl, le_rfl, ?_, fun _ =>
              ⟨⟨le_rfl, fun _ => rfl⟩, le_rfl, fun _ => rfl⟩⟩
            rintro _ ⟨⟩
            exact ⟨not_lt.mp notOlder, fun same => absurd same.symm differs⟩

/-- What an agent holds after it received some schemas. -/
def afterReceiving (received : List TopicSchema) : SchemaStore :=
  received.foldl (fun store schema => (store.putIfNewer schema).1)
    (fun _ => none)

theorem afterReceiving_snoc
    (received : List TopicSchema)
    (schema : TopicSchema) :
    afterReceiving (received ++ [schema]) =
      ((afterReceiving received).putIfNewer schema).1 := by
  rw [afterReceiving, foldl_append, foldl_cons, foldl_nil, ← afterReceiving]

variable {received : List TopicSchema}

theorem mem_of_afterReceiving
    {keyPrefix : String}
    {schema : TopicSchema}
    (held : afterReceiving received keyPrefix = some schema) :
    schema ∈ received ∧ schema.keyPrefix = keyPrefix := by
  induction received using List.reverseRecOn with
  | nil =>
    cases held
  | append_singleton earlier last inductionHypothesis =>
    obtain ⟨next, isNext, source, -⟩ :=
      (afterReceiving earlier).putIfNewer_spec last
    rw [afterReceiving_snoc, isNext, update_apply] at held
    rw [mem_append, mem_singleton]
    split at held
    · next isPrefix =>
        cases held
        rcases source with isLast | before
        · exact ⟨Or.inr isLast, by rw [isLast, isPrefix]⟩
        · exact ⟨Or.inl (inductionHypothesis (isPrefix ▸ before)).1,
            (inductionHypothesis (isPrefix ▸ before)).2⟩
    · exact ⟨Or.inl (inductionHypothesis held).1, (inductionHypothesis held).2⟩

theorem follows_afterReceiving
    {keyPrefix : String}
    {held : TopicSchema}
    (isHeld : afterReceiving received keyPrefix = some held)
    (rest : List TopicSchema) :
    ∃ next, afterReceiving (received ++ rest) keyPrefix = some next ∧
      Follows next held := by
  induction rest using List.reverseRecOn with
  | nil =>
    exact ⟨held, by rwa [append_nil], le_rfl, fun _ => rfl⟩
  | append_singleton rest schema inductionHypothesis =>
    obtain ⟨before, isBefore, follows⟩ := inductionHypothesis
    obtain ⟨next, isNext, -, -, followsIt, -⟩ :=
      (afterReceiving (received ++ rest)).putIfNewer_spec schema
    rw [← append_assoc, afterReceiving_snoc, isNext, update_apply]
    split
    · next isPrefix =>
        exact ⟨next, rfl,
          (followsIt before (isPrefix ▸ isBefore)).trans follows⟩
    · exact ⟨before, isBefore, follows⟩

/-- An agent holds the highest version that it received. -/
theorem le_afterReceiving
    {schema : TopicSchema}
    (isReceived : schema ∈ received) :
    ∃ held, afterReceiving received schema.keyPrefix = some held ∧
      schema.schemaVersion ≤ held.schemaVersion := by
  obtain ⟨earlier, later, rfl⟩ := append_of_mem isReceived
  obtain ⟨next, isNext, -, higher, -⟩ :=
    (afterReceiving earlier).putIfNewer_spec schema
  have isHeld :
      afterReceiving (earlier ++ [schema]) schema.keyPrefix = some next := by
    rw [afterReceiving_snoc, isNext, update_self]
  obtain ⟨held, holds, follows⟩ := follows_afterReceiving isHeld later
  rw [append_assoc, singleton_append] at holds
  exact ⟨held, holds, higher.trans follows.1⟩

/-- Versions never fall, a version has one accepted contract, prefixes do not
mix, and without conflicts the order of the calls does not matter. -/
theorem putIfNewer_guards :
    (∀ received rest keyPrefix held,
        afterReceiving received keyPrefix = some held →
          ∃ next, afterReceiving (received ++ rest) keyPrefix = some next ∧
            held.schemaVersion ≤ next.schemaVersion) ∧
      (∀ earlier first between second,
        ((afterReceiving earlier).putIfNewer first).2 = true →
        ((afterReceiving (earlier ++ [first] ++ between)).putIfNewer
          second).2 = true →
        first.keyPrefix = second.keyPrefix →
        first.schemaVersion = second.schemaVersion →
          first.toWireContract = second.toWireContract) ∧
      (∀ received schema keyPrefix, keyPrefix ≠ schema.keyPrefix →
        afterReceiving (received ++ [schema]) keyPrefix =
          afterReceiving received keyPrefix) ∧
      ∀ received other keyPrefix, received.Perm other →
        (∀ first ∈ received, ∀ second ∈ received,
          first.keyPrefix = keyPrefix → second.keyPrefix = keyPrefix →
          first.schemaVersion = second.schemaVersion →
            first.toWireContract = second.toWireContract) →
        (afterReceiving received keyPrefix).map
            (fun held => (held.schemaVersion, held.toWireContract)) =
          (afterReceiving other keyPrefix).map
            (fun held => (held.schemaVersion, held.toWireContract)) := by
  refine ⟨fun received rest keyPrefix held isHeld => ?_,
    fun earlier first between second accepted acceptedLater samePrefix same =>
      ?_, fun received schema keyPrefix differs => ?_,
    fun received other keyPrefix perm agree => ?_⟩
  · obtain ⟨next, isNext, follows⟩ := follows_afterReceiving isHeld rest
    exact ⟨next, isNext, follows.1⟩
  · obtain ⟨held, isHeld, -, -, -, standsFor⟩ :=
      (afterReceiving earlier).putIfNewer_spec first
    have holds :
        afterReceiving (earlier ++ [first]) first.keyPrefix = some held := by
      rw [afterReceiving_snoc, isHeld, update_self]
    obtain ⟨before, isBefore, follows⟩ := follows_afterReceiving holds between
    obtain ⟨last, -, -, -, followsIt, lastStandsFor⟩ :=
      (afterReceiving (earlier ++ [first] ++ between)).putIfNewer_spec second
    rw [samePrefix] at isBefore
    exact ((((lastStandsFor acceptedLater).1.trans
      (followsIt before isBefore)).trans follows).trans
      (standsFor accepted).2).2 same
  · obtain ⟨held, isHeld, -⟩ :=
      (afterReceiving received).putIfNewer_spec schema
    rw [afterReceiving_snoc, isHeld, update_of_ne differs]
  · cases holds : afterReceiving received keyPrefix with
    | none =>
      cases holdsOther : afterReceiving other keyPrefix with
      | none => rfl
      | some schema =>
        obtain ⟨isOther, rfl⟩ := mem_of_afterReceiving holdsOther
        obtain ⟨held, isHeld, -⟩ := le_afterReceiving (perm.mem_iff.mpr isOther)
        cases holds.symm.trans isHeld
    | some schema =>
      obtain ⟨isReceived, isPrefix⟩ := mem_of_afterReceiving holds
      obtain ⟨held, isHeld, higher⟩ :=
        le_afterReceiving (perm.mem_iff.mp isReceived)
      rw [isPrefix] at isHeld
      obtain ⟨isOther, otherPrefix⟩ := mem_of_afterReceiving isHeld
      obtain ⟨_, isSchema, lower⟩ :=
        le_afterReceiving (perm.mem_iff.mpr isOther)
      rw [otherPrefix, holds] at isSchema
      cases isSchema
      have same := le_antisymm higher lower
      rw [isHeld, Option.map_some, Option.map_some, same,
        agree schema isReceived held (perm.mem_iff.mpr isOther) isPrefix
          otherPrefix same]

theorem afterReceiving_singleton (schema : TopicSchema) :
    afterReceiving [schema] schema.keyPrefix = some schema := by
  simp [afterReceiving, putIfNewer, put]

end SchemaStore

/-! ## Versions along a run -/

/-- The store and every configuration stored so far. -/
structure TopicRun where
  store : ConfigStore := {}
  stored : List TopicConfig := []

namespace TopicRun

/-- Handle one request and note what it stores. -/
def step (run : TopicRun) (request : TopicRequest) : TopicRun where
  store := (run.store.handle request).1
  stored := run.stored ++ (run.store.handle request).2.toOption.toList

def ofRequests (requests : List TopicRequest) : TopicRun :=
  requests.foldl step {}

/-- The configurations stored for a topic, in order. -/
def history (run : TopicRun) (name : String) : List TopicConfig :=
  run.stored.filter (·.name = name)

/-- An agent never contradicts the orchestrator, whatever it received. -/
def AgentsAgree (run : TopicRun) (orchestratorPrefix : String) : Prop :=
  ∀ received : List TopicSchema,
    (∀ schema ∈ received, ∃ config ∈ run.stored,
      schema = config.schema orchestratorPrefix) →
    ∀ keyPrefix schema,
      SchemaStore.afterReceiving received keyPrefix = some schema →
      ∀ config, run.store.topics schema.name = some config →
        schema.schemaVersion =
            (config.schema orchestratorPrefix).schemaVersion →
          schema.toWireContract = config.toWireContract

/-- One wire contract for each version of each topic. -/
structure OneContract (run : TopicRun) (orchestratorPrefix : String) :
    Prop where
  ascending :
    ∀ name,
      (run.history name).Pairwise fun earlier later =>
        earlier.schemaVersion ≤ later.schemaVersion
  unique :
    ∀ name, ∀ first ∈ run.history name, ∀ second ∈ run.history name,
      first.schemaVersion = second.schemaVersion →
        first.toWireContract = second.toWireContract
  agents : run.AgentsAgree orchestratorPrefix

end TopicRun

/-- A configuration may replace another one of the same topic. -/
def TopicConfig.Follows (later earlier : TopicConfig) : Prop :=
  earlier.schemaVersion ≤ later.schemaVersion ∧
    (publishedVersion earlier.schemaVersion =
        publishedVersion later.schemaVersion →
      earlier.toWireContract = later.toWireContract)

/-- A request that may replace the stored configuration of its topic. -/
def TopicRequest.Evolves (store : ConfigStore) (request : TopicRequest) :
    Prop :=
  ∀ config ∈ (request.stores store).toOption,
    ∀ current ∈ store.topics config.name, config.Follows current

theorem publishedVersion_mono
    {first second : U32}
    (ordered : first ≤ second) :
    publishedVersion first ≤ publishedVersion second := by
  unfold publishedVersion
  split
  · split
    · exact le_rfl
    · next nonzero =>
        exact Fin.one_le_of_ne_zero nonzero
  · grind

namespace TopicConfig.Follows

theorem trans
    {first second third : TopicConfig}
    (later : third.Follows second)
    (earlier : second.Follows first) :
    third.Follows first := by
  refine ⟨earlier.1.trans later.1, ?_⟩
  intro same
  have firstLe := publishedVersion_mono earlier.1
  have secondLe := publishedVersion_mono later.1
  have firstSame := le_antisymm firstLe (same ▸ secondLe)
  exact (earlier.2 firstSame).trans (later.2 (firstSame.symm.trans same))

/-- Along a history it is enough to follow the last configuration. -/
theorem pairwise_snoc_iff
    {configs : List TopicConfig}
    (follows :
      configs.Pairwise fun earlier later => later.Follows earlier)
    (config : TopicConfig) :
    (configs ++ [config]).Pairwise
        (fun earlier later => later.Follows earlier) ↔
      ∀ last ∈ configs.getLast?, config.Follows last := by
  rw [pairwise_append]
  constructor
  · rintro ⟨-, -, across⟩ last isLast
    exact across last (mem_of_getLast? isLast) config
      (mem_singleton_self config)
  · intro followsLast
    refine ⟨follows, pairwise_singleton _ _, ?_⟩
    intro earlier isEarlier later isConfig
    rw [mem_singleton.mp isConfig]
    obtain ⟨last, isLast⟩ := Option.isSome_iff_exists.mp
      (List.getLast?_isSome.mpr (ne_nil_of_mem isEarlier))
    have followsIt := followsLast last isLast
    obtain ⟨before, shape⟩ := List.getLast?_eq_some_iff.mp isLast
    subst shape
    rcases mem_append.mp isEarlier with isBefore | isLast
    · have between : last.Follows earlier :=
        (pairwise_append.mp follows).2.2 earlier isBefore last
          (mem_singleton_self last)
      exact followsIt.trans between
    · rw [mem_singleton.mp isLast]
      exact followsIt

end TopicConfig.Follows

namespace TopicRun

/-- A request stores a configuration or changes nothing. -/
theorem step_cases (run : TopicRun) (request : TopicRequest) :
    (∃ config,
        request.stores run.store = .ok config ∧
          run.step request =
            ⟨run.store.putTopic config, run.stored ++ [config]⟩) ∨
      (∃ failure,
        request.stores run.store = .error failure ∧
          run.step request = run) := by
  cases stores : request.stores run.store with
  | ok config =>
    refine Or.inl ⟨config, rfl, ?_⟩
    simp [step, ConfigStore.handle, stores, Except.toOption]
  | error failure =>
    refine Or.inr ⟨failure, rfl, ?_⟩
    simp [step, ConfigStore.handle, stores, Except.toOption]

theorem history_snoc
    (store : ConfigStore)
    (stored : List TopicConfig)
    (config : TopicConfig)
    (name : String) :
    history ⟨store, stored ++ [config]⟩ name =
      if config.name = name then
        history ⟨store, stored⟩ name ++ [config]
      else
        history ⟨store, stored⟩ name := by
  by_cases isName : config.name = name
  · simp [history, isName]
  · simp [history, isName]

/-- The store holds the last configuration of every topic. -/
def Recorded (run : TopicRun) : Prop :=
  ∀ name, run.store.topics name = (run.history name).getLast?

variable {run : TopicRun}

theorem Recorded.step
    (recorded : run.Recorded)
    (request : TopicRequest) :
    (run.step request).Recorded := by
  rcases run.step_cases request with ⟨config, -, shape⟩ | ⟨-, -, shape⟩
  · intro name
    simp only [shape, history_snoc, ConfigStore.putTopic, update_apply]
    by_cases isName : config.name = name
    · simp [isName]
    · rw [if_neg (Ne.symm isName), if_neg isName]
      exact recorded name
  · rw [shape]
    exact recorded

theorem recorded_ofRequests (requests : List TopicRequest) :
    (ofRequests requests).Recorded :=
  List.foldlRecOn requests TopicRun.step (motive := Recorded)
    (fun _ => rfl) (fun _ recorded request _ => recorded.step request)

/-- Every configuration follows the earlier ones of its topic. -/
structure Coherent (run : TopicRun) : Prop where
  recorded : run.Recorded
  follows :
    ∀ name,
      (run.history name).Pairwise fun earlier later => later.Follows earlier

theorem coherent_step_iff
    (run : TopicRun)
    (request : TopicRequest)
    (coherent : run.Coherent) :
    (run.step request).Coherent ↔ request.Evolves run.store := by
  have recordedAfter := coherent.recorded.step request
  rcases run.step_cases request with
    ⟨config, stores, shape⟩ | ⟨failure, stores, shape⟩
  · have evolves_iff :
        request.Evolves run.store ↔
          ∀ last ∈ (run.history config.name).getLast?, config.Follows last := by
      simp [TopicRequest.Evolves, stores, Except.toOption,
        coherent.recorded config.name]
    rw [evolves_iff,
      ← TopicConfig.Follows.pairwise_snoc_iff
        (coherent.follows config.name) config]
    rw [shape] at recordedAfter ⊢
    constructor
    · intro after
      have follows := after.follows config.name
      rw [history_snoc, if_pos rfl] at follows
      exact follows
    · intro follows
      refine ⟨recordedAfter, fun name => ?_⟩
      rw [history_snoc]
      by_cases isName : config.name = name
      · rw [if_pos isName, ← isName]
        exact follows
      · rw [if_neg isName]
        exact coherent.follows name
  · grind [TopicRequest.Evolves, Except.toOption]

/-- A stored configuration of a topic is its current one or precedes it. -/
theorem Coherent.current_follows
    (coherent : run.Coherent)
    {config current : TopicConfig}
    (isStored : config ∈ run.stored)
    (isCurrent : run.store.topics config.name = some current) :
    config = current ∨ current.Follows config := by
  have inHistory : config ∈ run.history config.name :=
    mem_filter.mpr ⟨isStored, decide_eq_true rfl⟩
  rw [coherent.recorded] at isCurrent
  have follows := coherent.follows config.name
  obtain ⟨before, shape⟩ := List.getLast?_eq_some_iff.mp isCurrent
  rw [shape] at inHistory follows
  rcases mem_append.mp inHistory with isBefore | isLast
  · exact Or.inr ((pairwise_append.mp follows).2.2 config isBefore
      current (mem_singleton_self current))
  · exact Or.inl (mem_singleton.mp isLast)

theorem Coherent.oneContract
    (coherent : run.Coherent)
    (orchestratorPrefix : String) :
    run.OneContract orchestratorPrefix where
  ascending := fun name => (coherent.follows name).imp fun follows => follows.1
  unique := by
    intro name first isFirst second isSecond sameVersion
    have same :
        ∀ earlier later : TopicConfig,
          later.Follows earlier →
          earlier.schemaVersion = later.schemaVersion →
            earlier.toWireContract = later.toWireContract :=
      fun earlier later follows same =>
        follows.2 (congrArg publishedVersion same)
    by_cases isSame : first = second
    · rw [isSame]
    · rcases List.Pairwise.forall_of_forall_of_flip
          (R := fun earlier later =>
            earlier.Follows later ∨ later.Follows earlier)
          (fun _ _ => Or.inl ⟨le_rfl, fun _ => rfl⟩)
          ((coherent.follows name).imp Or.inr)
          ((coherent.follows name).imp Or.inl) isFirst isSecond with
        after | before
      · exact (same second first after sameVersion.symm).symm
      · exact same first second before sameVersion
  agents := by
    intro received published keyPrefix schema held current isCurrent sameVersion
    obtain ⟨config, isStored, isSchema⟩ :=
      published schema (SchemaStore.mem_of_afterReceiving held).1
    subst isSchema
    rcases coherent.current_follows isStored isCurrent with isSame | follows
    · rw [isSame]
      rfl
    · exact follows.2 sameVersion

/-- An agent that received the current schema contradicts a conflicting one. -/
theorem AgentsAgree.follows
    (recorded : run.Recorded)
    {config current : TopicConfig}
    (isCurrent : run.store.topics config.name = some current)
    {orchestratorPrefix : String}
    (agree :
      AgentsAgree ⟨run.store.putTopic config, run.stored ++ [config]⟩
        orchestratorPrefix)
    (sameVersion :
      publishedVersion current.schemaVersion =
        publishedVersion config.schemaVersion) :
    current.toWireContract = config.toWireContract := by
  have isStored : current ∈ run.history config.name := by
    rw [recorded] at isCurrent
    exact mem_of_getLast? isCurrent
  obtain ⟨inStored, isName⟩ := mem_filter.mp isStored
  refine agree [current.schema orchestratorPrefix] ?_ _ _
    (SchemaStore.afterReceiving_singleton _) config ?_ sameVersion
  · intro schema isSchema
    exact ⟨current, mem_append_left _ inStored,
      mem_singleton.mp isSchema⟩
  · have sameName : current.name = config.name := of_decide_eq_true isName
    simp [ConfigStore.putTopic, TopicConfig.schema, sameName]

/--
The orchestrator and its agents have one wire contract for each version
throughout a run exactly if every request keeps or raises the version of the
stored configuration and keeps its contract unless it raises the version that
is published.
-/
theorem oneContract_throughout_iff
    (orchestratorPrefix : String)
    (requests : List TopicRequest) :
    (∀ earlier, earlier <+: requests →
        (ofRequests earlier).OneContract orchestratorPrefix) ↔
      GuardedRun step (fun run request => request.Evolves run.store) {}
        requests := by
  constructor
  · intro oneContract
    refine GuardedRun.iff_forall_split.mpr ?_
    intro earlier request later shape config isConfig current isCurrent
    have after := oneContract (earlier ++ [request])
      ⟨later, by rw [shape, append_assoc, singleton_append]⟩
    rw [ofRequests, foldl_append, foldl_cons, foldl_nil,
      ← ofRequests] at after
    rw [← ofRequests] at isConfig isCurrent
    have recorded := recorded_ofRequests earlier
    rcases step_cases (ofRequests earlier) request with
      ⟨stored, stores, isStep⟩ | ⟨failure, fails, -⟩
    · rw [stores] at isConfig
      cases isConfig
      rw [isStep] at after
      refine ⟨?_, AgentsAgree.follows recorded isCurrent after.agents⟩
      have ascending := after.ascending config.name
      rw [history_snoc, if_pos rfl] at ascending
      rw [Option.mem_def, recorded] at isCurrent
      exact (pairwise_append.mp ascending).2.2 current
        (mem_of_getLast? isCurrent) config
        (mem_singleton_self config)
    · rw [fails] at isConfig
      cases isConfig
  · intro guarded earlier isEarlier
    have initially : Coherent {} := ⟨fun _ => rfl, fun _ => .nil⟩
    exact ((GuardedRun.iff_throughout Coherent coherent_step_iff initially
      requests).mp guarded earlier isEarlier).oneContract orchestratorPrefix

/-- An update changes the codec and keeps the version, which the agents that
have the first schema never learn. -/
theorem update_changes_contract :
    let requests : List TopicRequest :=
      [.createTopic { name := "t", keyPrefix := "t" },
        .updateTopic "t" { codec := some .json }]
    ((ofRequests requests).history "t").map
        (fun config => (config.schemaVersion, config.codec)) =
      [(0, .postcard), (0, .json)] ∧
    ((SchemaStore.afterReceiving
        (((ofRequests requests).history "t").map
          fun config => config.schema "p")) "t").map
        (fun schema => (schema.schemaVersion, schema.codec)) =
      some (1, .postcard) := by
  decide +kernel

end TopicRun

end Mitiflow
