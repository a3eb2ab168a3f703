import Laswell.Document.Objects

/-!
# Laswell.Document.Vendors

The parsers of the intents that vendor modules add: Citus, TimescaleDB and pg_cron. Each is what
the parser of that name checks, in its order.
-/

namespace Laswell
namespace Document

open Base Canonical

/-! ## Citus -/

/-- `citus_is_colocation_sentinel` -/
def isColocationSentinel (v : Bytes) : Bool := oneOf ["none", "default"] v

/-- `citus_check_colocate_with` -/
def checkColocateWith (in_ : Intent) : Parse Unit := do
  let v ← valueText in_.body "colocate_with" []
  refuse (!v.isEmpty && !isColocationSentinel v && !v.contains 0x2E)
    (in_.place ++ ".colocate_with must be \"schema.table\", or one of Citus's own words \"none\" " ++
      "and \"default\"")

/-- A group that a table joins has a shard count of its own; the group is read once more. -/
def refuseBothCounts (in_ : Intent) (asked : Bool) : Parse Unit :=
  if asked then do
    let v ← valueText in_.body "colocate_with" []
    refuse (!isColocationSentinel v) (in_.place ++ " names both colocate_with and shard_count")
  else return

def parseShardCount (in_ : Intent) : Parse Unit :=
  refuse (has in_.body "shard_count" && (!isInteger (at_ in_.body "shard_count") ||
      decide (intOf (at_ in_.body "shard_count") ≤ 0)))
    (in_.place ++ ".shard_count must be a positive integer")

def parseCitusDistributeTable (in_ : Intent) : Parse Unit := do
  let body := in_.body
  in_.keys ["kind", "schema", "table", "distribution_column", "shard_method", "colocate_with",
    "shard_count", "concurrently", "comment"]
  in_.names ["schema", "table", "distribution_column"]
  let method ← valueText body "shard_method" "hash"
  refuse (!oneOf ["hash", "append", "range"] method)
    (in_.place ++ ".shard_method must be hash, append or range")
  let when ← valueText body "concurrently" "auto"
  refuse (!oneOf ["auto", "always", "never"] when)
    (in_.place ++ ".concurrently must be auto, always or never")
  checkColocateWith in_
  refuseBothCounts in_ (has body "colocate_with" && has body "shard_count")
  parseShardCount in_

/-- A table, and nothing more about it. -/
def parseCitusTable (in_ : Intent) : Parse Unit := do
  in_.keys ["kind", "schema", "table", "comment"]
  in_.names ["schema", "table"]

def parseCitusCreateReferenceTable (in_ : Intent) : Parse Unit := parseCitusTable in_

def parseCitusTruncateLocalData (in_ : Intent) : Parse Unit := parseCitusTable in_

def parseCitusUpdateTableStatistics (in_ : Intent) : Parse Unit := parseCitusTable in_

def parseCitusDistributeFunction (in_ : Intent) : Parse Unit := do
  in_.keys ["kind", "schema", "name", "arguments", "distribution_argument", "colocate_with",
    "force_delegation", "comment"]
  in_.names ["schema", "name"]
  in_.string "arguments"
  let hasArg := has in_.body "distribution_argument"
  let hasCol := has in_.body "colocate_with"
  refuse (hasArg != hasCol) (in_.place ++ " names " ++
    (if hasArg then "distribution_argument" else "colocate_with") ++ " without the other")
  if hasCol then checkColocateWith in_
  in_.optionalFlag "force_delegation" ".force_delegation must be a boolean"

def parseCitusAlterDistributedTable (in_ : Intent) : Parse Unit := do
  let body := in_.body
  in_.keys ["kind", "schema", "table", "distribution_column", "shard_count", "colocate_with",
    "cascade_to_colocated", "comment"]
  in_.names ["schema", "table"]
  let col := has body "distribution_column"
  in_.changes ["distribution_column", "shard_count", "colocate_with"]
  if col then in_.identifier "distribution_column"
  parseShardCount in_
  if has body "colocate_with" then
    checkColocateWith in_
    let v ← valueText body "colocate_with" []
    refuse (oneOf ["default"] v) (in_.place ++ ".colocate_with cannot be \"default\" here")
    refuseBothCounts in_ (has body "shard_count")
  if col then
    let cascade ← valueFlag body "cascade_to_colocated" false
    refuse cascade (in_.place ++ " cascades a distribution column change")
  in_.optionalFlag "cascade_to_colocated" ".cascade_to_colocated must be a boolean"

/-- A table, and whether its foreign keys go along. -/
def parseCitusCascading (in_ : Intent) : Parse Unit := do
  in_.keys ["kind", "schema", "table", "cascade_via_foreign_keys", "comment"]
  in_.names ["schema", "table"]
  in_.optionalFlag "cascade_via_foreign_keys" ".cascade_via_foreign_keys must be a boolean"

def parseCitusUndistributeTable (in_ : Intent) : Parse Unit := parseCitusCascading in_

def parseCitusAddLocalTableToMetadata (in_ : Intent) : Parse Unit := parseCitusCascading in_

/-- A port is read as an `int` before it is compared. -/
def isPort (v : Json) : Bool :=
  isInteger v && decide (0 < intOf v) && decide (intOf v ≤ 65535)

/-- `citus_parse_node` -/
def parseNode (in_ : Intent) : Parse Unit := do
  let host ← requireString in_.body "host" in_.place
  refuse (host.isEmpty || host.any fun c => (ascii " \t\n'\"").contains c)
    (in_.place ++ ".host must be a host name or address")
  refuse (has in_.body "port" && !isPort (at_ in_.body "port"))
    (in_.place ++ ".port must be an integer between 1 and 65535")

/-- `citus_parse_transfer_mode` -/
def parseTransferMode (in_ : Intent) : Parse Unit :=
  if has in_.body "transfer_mode" then do
    let m ← valueText in_.body "transfer_mode" []
    refuse (!oneOf ["auto", "force_logical", "block_writes"] m)
      (in_.place ++ ".transfer_mode must be \"auto\", \"force_logical\" or \"block_writes\"")
  else return

def parseCitusAddNode (in_ : Intent) : Parse Unit := do
  in_.keys ["kind", "host", "port", "should_have_shards", "comment"]
  parseNode in_
  in_.optionalFlag "should_have_shards" ".should_have_shards must be a boolean"

/-- A node, and nothing more about it. -/
def parseCitusNode (in_ : Intent) : Parse Unit := do
  in_.keys ["kind", "host", "port", "comment"]
  parseNode in_

def parseCitusRemoveNode (in_ : Intent) : Parse Unit := parseCitusNode in_

def parseCitusSetCoordinatorHost (in_ : Intent) : Parse Unit := parseCitusNode in_

def parseCitusDisableNode (in_ : Intent) : Parse Unit := parseCitusNode in_

def parseCitusActivateNode (in_ : Intent) : Parse Unit := parseCitusNode in_

def parseCitusSetNodeProperty (in_ : Intent) : Parse Unit := do
  in_.keys ["kind", "host", "port", "should_have_shards", "comment"]
  parseNode in_
  in_.statedFlag "should_have_shards"
    ".should_have_shards is required, and must be a boolean"

def parseCitusDrainNode (in_ : Intent) : Parse Unit := do
  in_.keys ["kind", "host", "port", "transfer_mode", "comment"]
  parseNode in_
  parseTransferMode in_

def parseCitusRebalanceShards (in_ : Intent) : Parse Unit := do
  in_.keys ["kind", "transfer_mode", "comment"]
  parseTransferMode in_

def parseCitusEnsureWorkers (in_ : Intent) : Parse Unit := do
  let body := in_.body
  in_.keys ["kind", "hosts_matching", "min_workers", "max_workers", "unlisted", "comment"]
  refuse (has body "hosts_matching" && !isWord (at_ body "hosts_matching"))
    (in_.place ++ ".hosts_matching must be a non-empty glob")
  ["min_workers", "max_workers"].forM fun k =>
    refuse (has body k && (!isInteger (at_ body k) || decide (intOf (at_ body k) < 1)))
      (in_.place ++ "." ++ k ++ " must be a positive integer")
  refuse (has body "min_workers" && has body "max_workers" &&
      decide (intOf (at_ body "max_workers") < intOf (at_ body "min_workers")))
    (in_.place ++ ".min_workers is greater than max_workers")
  if has body "unlisted" then
    let u ← valueText body "unlisted" []
    refuse (!oneOf ["keep", "refuse", "remove"] u)
      (in_.place ++ ".unlisted must be \"keep\", \"refuse\" or \"remove\"")

/-! ## TimescaleDB -/

/-- An interval as PostgreSQL keeps it. -/
structure TsInterval where
  months : Nat := 0
  days : Nat := 0
  seconds : Nat := 0

def isBlank (c : UInt8) : Bool := c == 0x20 || (0x09 ≤ c && c ≤ 0x0D)

/-- The words of a text, as `>>` reads them. -/
def wordsOf (s : Bytes) : List Bytes := (s.splitOnP isBlank).filter fun w => !w.isEmpty

def decimalOf (digits : Bytes) : Nat := digits.foldl (fun n d => 10 * n + (d.toNat - 0x30)) 0

/-- One `<n> <unit>` pair, added to those before it. -/
def addUnit (out : TsInterval) (n : Nat) (unit : Bytes) : Option TsInterval :=
  if oneOf ["year", "years"] unit then some { out with months := out.months + 12 * n }
  else if oneOf ["month", "months", "mon", "mons"] unit then
    some { out with months := out.months + n }
  else if oneOf ["week", "weeks"] unit then some { out with days := out.days + 7 * n }
  else if oneOf ["day", "days"] unit then some { out with days := out.days + n }
  else if oneOf ["hour", "hours"] unit then some { out with seconds := out.seconds + 3600 * n }
  else if oneOf ["minute", "minutes", "min", "mins"] unit then
    some { out with seconds := out.seconds + 60 * n }
  else if oneOf ["second", "seconds", "sec", "secs"] unit then
    some { out with seconds := out.seconds + n }
  else none

def addPairs : TsInterval → List Bytes → Option TsInterval
  | out, [] => some out
  | _, [_] => none
  | out, number :: unit :: rest =>
    if decide (12 < number.length) || number.any fun c => !(0x30 ≤ c && c ≤ 0x39) then none
    else (addUnit out (decimalOf number) (lower unit)).bind fun out => addPairs out rest

/-- `ts_parse_interval` -/
def tsParseInterval (s : Bytes) : Option TsInterval :=
  if wordsOf s = [] then none else addPairs {} (wordsOf s)

/-- `ts_require_interval` -/
def tsRequireInterval (in_ : Intent) (key : String) (required : Bool) : Parse Unit :=
  if !has in_.body key then refuse required (in_.place ++ " needs " ++ quotedWord key)
  else
    let v := at_ in_.body key
    refuse (!isString v || (tsParseInterval (text v)).isNone)
      (in_.place ++ "." ++ key ++ " must be an interval such as \"7 days\" or \"1 day 12 hours\"")

/-- `ts_optional_text`, and `pg_cron_require_text` of a key that may be left out -/
def optionalText (in_ : Intent) (key : String) : Parse Unit :=
  refuse (has in_.body key && !isWord (at_ in_.body key))
    (in_.place ++ "." ++ key ++ " must be a non-empty string")

def parseTimescaledbCreateHypertable (in_ : Intent) : Parse Unit := do
  in_.keys ["kind", "schema", "table", "time_column", "chunk_time_interval", "migrate_data",
    "comment"]
  in_.names ["schema", "table", "time_column"]
  tsRequireInterval in_ "chunk_time_interval" false
  in_.optionalFlag "migrate_data" ".migrate_data must be a boolean"
  optionalText in_ "comment"

def parseTimescaledbSetChunkTimeInterval (in_ : Intent) : Parse Unit := do
  in_.keys ["kind", "schema", "table", "chunk_time_interval", "comment"]
  in_.names ["schema", "table"]
  tsRequireInterval in_ "chunk_time_interval" true
  optionalText in_ "comment"

/-- A column, and where `ordered`, the direction behind it. -/
def parseColumnstoreEntry (in_ : Intent) (key : String) (ordered : Bool) (e : Json) :
    Parse Unit := do
  refuse (!isString e) (in_.place ++ "." ++ key ++ " entries must be strings")
  let words := wordsOf (text e)
  let direction := lower (words.getD 1 [])
  requireIdentifier (words.getD 0 []) key in_.ordinal
  refuse (decide (2 < words.length) ||
      (!direction.isEmpty && (!ordered || !oneOf ["asc", "desc"] direction)))
    (in_.place ++ "." ++ key ++ " entry " ++ quotedWord (text e) ++ " is not " ++
      if ordered then "a column, optionally followed by ASC or DESC" else "a column name")

def parseColumnstoreEntries (in_ : Intent) (key : String) (ordered : Bool) : Parse Unit :=
  if has in_.body key then do
    refuse (!isArray (at_ in_.body key)) (in_.place ++ "." ++ key ++ " must be an array")
    (elements (at_ in_.body key)).forM fun e => parseColumnstoreEntry in_ key ordered e
  else return

def parseTimescaledbSetColumnstore (in_ : Intent) : Parse Unit := do
  in_.keys ["kind", "schema", "table", "segment_by", "order_by", "comment"]
  in_.names ["schema", "table"]
  parseColumnstoreEntries in_ "segment_by" false
  parseColumnstoreEntries in_ "order_by" true
  optionalText in_ "comment"

def parseTimescaledbAddColumnstorePolicy (in_ : Intent) : Parse Unit := do
  in_.keys ["kind", "schema", "table", "after", "comment"]
  in_.names ["schema", "table"]
  tsRequireInterval in_ "after" true
  optionalText in_ "comment"

/-- `remove_columnstore_policy` and `remove_retention_policy` -/
def parseTimescaledbRemovePolicy (in_ : Intent) : Parse Unit := do
  in_.keys ["kind", "schema", "table", "comment"]
  in_.names ["schema", "table"]
  optionalText in_ "comment"

def parseTimescaledbAddRetentionPolicy (in_ : Intent) : Parse Unit := do
  in_.keys ["kind", "schema", "table", "drop_after", "acknowledge_data_loss", "comment"]
  in_.names ["schema", "table"]
  tsRequireInterval in_ "drop_after" true
  refuse (!flag (at_ in_.body "acknowledge_data_loss"))
    (in_.place ++ " needs \"acknowledge_data_loss\": true")
  optionalText in_ "comment"

def parseTimescaledbCreateContinuousAggregate (in_ : Intent) : Parse Unit := do
  in_.keys ["kind", "schema", "name", "query", "materialized_only", "refresh", "comment"]
  in_.names ["schema", "name"]
  in_.string "query"
  ["materialized_only", "refresh"].forM fun key =>
    in_.optionalFlag key ("." ++ ascii key ++ " must be a boolean")
  optionalText in_ "comment"

def parseTimescaledbAddContinuousAggregatePolicy (in_ : Intent) : Parse Unit := do
  in_.keys ["kind", "schema", "name", "start_offset", "end_offset", "schedule_interval", "comment"]
  in_.names ["schema", "name"]
  ["start_offset", "end_offset", "schedule_interval"].forM fun key => tsRequireInterval in_ key true
  optionalText in_ "comment"

/-! ## pg_cron -/

/-- `pg_cron_require_text` of a key that has to be given -/
def requiredText (in_ : Intent) (key : String) : Parse Unit := do
  refuse (!has in_.body key) (in_.place ++ " needs " ++ quotedWord key)
  optionalText in_ key

def parsePgCronSchedule (in_ : Intent) : Parse Unit := do
  in_.keys ["kind", "name", "schedule", "command", "database", "username", "active",
    "validate_command", "comment"]
  ["name", "schedule", "command"].forM fun key => requiredText in_ key
  ["database", "username"].forM fun key => optionalText in_ key
  in_.optionalFlag "validate_command" ".validate_command must be a boolean"
  in_.optionalFlag "active" ".active must be a boolean"
  optionalText in_ "comment"

def parsePgCronUnschedule (in_ : Intent) : Parse Unit := do
  in_.keys ["kind", "name", "username", "comment"]
  requiredText in_ "name"
  ["username", "comment"].forM fun key => optionalText in_ key

/-! ## The kinds -/

inductive Vendor where
  | citus | timescaledb | pgCron | pgvector

inductive VendorKind where
  | citusDistributeTable | citusCreateReferenceTable | citusDistributeFunction
  | citusAlterDistributedTable | citusUndistributeTable | citusAddLocalTableToMetadata
  | citusTruncateLocalData | citusAddNode | citusRemoveNode | citusSetCoordinatorHost
  | citusSetNodeProperty | citusDrainNode | citusRebalanceShards | citusEnsureWorkers
  | citusDisableNode | citusActivateNode | citusUpdateTableStatistics | timescaledbCreateHypertable
  | timescaledbSetChunkTimeInterval | timescaledbSetColumnstore | timescaledbAddColumnstorePolicy
  | timescaledbRemoveColumnstorePolicy | timescaledbAddRetentionPolicy
  | timescaledbRemoveRetentionPolicy | timescaledbCreateContinuousAggregate
  | timescaledbAddContinuousAggregatePolicy | pgCronSchedule | pgCronUnschedule

/-- The kinds a module declares. pgvector has none of its own. -/
def vendorKinds : Vendor → List (String × VendorKind)
  | .citus =>
    [("citus_distribute_table", .citusDistributeTable),
      ("citus_create_reference_table", .citusCreateReferenceTable),
      ("citus_distribute_function", .citusDistributeFunction),
      ("citus_alter_distributed_table", .citusAlterDistributedTable),
      ("citus_undistribute_table", .citusUndistributeTable),
      ("citus_add_local_table_to_metadata", .citusAddLocalTableToMetadata),
      ("citus_truncate_local_data", .citusTruncateLocalData), ("citus_add_node", .citusAddNode),
      ("citus_remove_node", .citusRemoveNode),
      ("citus_set_coordinator_host", .citusSetCoordinatorHost),
      ("citus_set_node_property", .citusSetNodeProperty), ("citus_drain_node", .citusDrainNode),
      ("citus_rebalance_shards", .citusRebalanceShards),
      ("citus_ensure_workers", .citusEnsureWorkers), ("citus_disable_node", .citusDisableNode),
      ("citus_activate_node", .citusActivateNode),
      ("citus_update_table_statistics", .citusUpdateTableStatistics)]
  | .timescaledb =>
    [("timescaledb_create_hypertable", .timescaledbCreateHypertable),
      ("timescaledb_set_chunk_time_interval", .timescaledbSetChunkTimeInterval),
      ("timescaledb_set_columnstore", .timescaledbSetColumnstore),
      ("timescaledb_add_columnstore_policy", .timescaledbAddColumnstorePolicy),
      ("timescaledb_remove_columnstore_policy", .timescaledbRemoveColumnstorePolicy),
      ("timescaledb_add_retention_policy", .timescaledbAddRetentionPolicy),
      ("timescaledb_remove_retention_policy", .timescaledbRemoveRetentionPolicy),
      ("timescaledb_create_continuous_aggregate", .timescaledbCreateContinuousAggregate),
      ("timescaledb_add_continuous_aggregate_policy", .timescaledbAddContinuousAggregatePolicy)]
  | .pgCron =>
    [("pg_cron_schedule", .pgCronSchedule), ("pg_cron_unschedule", .pgCronUnschedule)]
  | .pgvector => []

def parseVendor : VendorKind → Intent → Parse Unit
  | .citusDistributeTable => parseCitusDistributeTable
  | .citusCreateReferenceTable => parseCitusCreateReferenceTable
  | .citusDistributeFunction => parseCitusDistributeFunction
  | .citusAlterDistributedTable => parseCitusAlterDistributedTable
  | .citusUndistributeTable => parseCitusUndistributeTable
  | .citusAddLocalTableToMetadata => parseCitusAddLocalTableToMetadata
  | .citusTruncateLocalData => parseCitusTruncateLocalData
  | .citusAddNode => parseCitusAddNode
  | .citusRemoveNode => parseCitusRemoveNode
  | .citusSetCoordinatorHost => parseCitusSetCoordinatorHost
  | .citusSetNodeProperty => parseCitusSetNodeProperty
  | .citusDrainNode => parseCitusDrainNode
  | .citusRebalanceShards => parseCitusRebalanceShards
  | .citusEnsureWorkers => parseCitusEnsureWorkers
  | .citusDisableNode => parseCitusDisableNode
  | .citusActivateNode => parseCitusActivateNode
  | .citusUpdateTableStatistics => parseCitusUpdateTableStatistics
  | .timescaledbCreateHypertable => parseTimescaledbCreateHypertable
  | .timescaledbSetChunkTimeInterval => parseTimescaledbSetChunkTimeInterval
  | .timescaledbSetColumnstore => parseTimescaledbSetColumnstore
  | .timescaledbAddColumnstorePolicy => parseTimescaledbAddColumnstorePolicy
  | .timescaledbRemoveColumnstorePolicy => parseTimescaledbRemovePolicy
  | .timescaledbAddRetentionPolicy => parseTimescaledbAddRetentionPolicy
  | .timescaledbRemoveRetentionPolicy => parseTimescaledbRemovePolicy
  | .timescaledbCreateContinuousAggregate => parseTimescaledbCreateContinuousAggregate
  | .timescaledbAddContinuousAggregatePolicy => parseTimescaledbAddContinuousAggregatePolicy
  | .pgCronSchedule => parsePgCronSchedule
  | .pgCronUnschedule => parsePgCronUnschedule

/-! ## What they read without asking -/

def colocateRead (in_ : Intent) : Check Thrown := textRead in_.body "colocate_with"

def distributeTableReads (in_ : Intent) : List (Check Thrown) :=
  [textRead in_.body "shard_method", textRead in_.body "concurrently", colocateRead in_] ++
    if has in_.body "colocate_with" && has in_.body "shard_count" then [colocateRead in_] else []

def distributeFunctionReads (in_ : Intent) : List (Check Thrown) :=
  if has in_.body "colocate_with" then [colocateRead in_] else []

def alterDistributedTableReads (in_ : Intent) : List (Check Thrown) :=
  (if has in_.body "colocate_with" then
    [colocateRead in_, colocateRead in_] ++
      if has in_.body "shard_count" then [colocateRead in_] else []
  else []) ++
    if has in_.body "distribution_column" then [flagRead in_.body "cascade_to_colocated"] else []

def transferModeReads (in_ : Intent) : List (Check Thrown) :=
  if has in_.body "transfer_mode" then [textRead in_.body "transfer_mode"] else []

def ensureWorkersReads (in_ : Intent) : List (Check Thrown) :=
  if has in_.body "unlisted" then [textRead in_.body "unlisted"] else []

def vendorReads : VendorKind → Intent → List (Check Thrown)
  | .citusDistributeTable => distributeTableReads
  | .citusDistributeFunction => distributeFunctionReads
  | .citusAlterDistributedTable => alterDistributedTableReads
  | .citusDrainNode => transferModeReads
  | .citusRebalanceShards => transferModeReads
  | .citusEnsureWorkers => ensureWorkersReads
  | _ => fun _ => []

section Unguarded

variable (in_ : Intent)

@[simp] theorem unguarded_checkColocateWith :
    unguarded (checkColocateWith in_) = [colocateRead in_] := by
  simp [checkColocateWith, colocateRead]

@[simp] theorem unguarded_refuseBothCounts (asked : Bool) :
    unguarded (refuseBothCounts in_ asked) = if asked then [colocateRead in_] else [] := by
  cases asked <;> simp [refuseBothCounts, colocateRead]

@[simp] theorem unguarded_parseShardCount : unguarded (parseShardCount in_) = [] :=
  unguarded_refuse _ _

@[simp] theorem unguarded_parseNode : unguarded (parseNode in_) = [] := by simp [parseNode]

@[simp] theorem unguarded_parseTransferMode :
    unguarded (parseTransferMode in_) = transferModeReads in_ := by
  unfold parseTransferMode transferModeReads
  split <;> simp

@[simp] theorem unguarded_tsRequireInterval (key : String) (required : Bool) :
    unguarded (tsRequireInterval in_ key required) = [] := by
  unfold tsRequireInterval
  split <;> simp

@[simp] theorem unguarded_optionalText (key : String) : unguarded (optionalText in_ key) = [] :=
  unguarded_refuse _ _

@[simp] theorem unguarded_requiredText (key : String) : unguarded (requiredText in_ key) = [] := by
  simp [requiredText]

@[simp] theorem unguarded_parseColumnstoreEntries (key : String) (ordered : Bool) :
    unguarded (parseColumnstoreEntries in_ key ordered) = [] := by
  unfold parseColumnstoreEntries
  split <;> simp [parseColumnstoreEntry]

theorem unguarded_parseCitusDistributeTable :
    unguarded (parseCitusDistributeTable in_) = distributeTableReads in_ := by
  simp [parseCitusDistributeTable, distributeTableReads]

theorem unguarded_parseCitusDistributeFunction :
    unguarded (parseCitusDistributeFunction in_) = distributeFunctionReads in_ := by
  simp [parseCitusDistributeFunction, distributeFunctionReads]

theorem unguarded_parseCitusAlterDistributedTable :
    unguarded (parseCitusAlterDistributedTable in_) = alterDistributedTableReads in_ := by
  cases hcolocate : has in_.body "colocate_with" <;>
    simp [parseCitusAlterDistributedTable, alterDistributedTableReads, colocateRead, hcolocate]

theorem unguarded_parseCitusDrainNode :
    unguarded (parseCitusDrainNode in_) = transferModeReads in_ := by
  simp [parseCitusDrainNode]

theorem unguarded_parseCitusRebalanceShards :
    unguarded (parseCitusRebalanceShards in_) = transferModeReads in_ := by
  simp [parseCitusRebalanceShards]

theorem unguarded_parseCitusEnsureWorkers :
    unguarded (parseCitusEnsureWorkers in_) = ensureWorkersReads in_ := by
  simp [parseCitusEnsureWorkers, ensureWorkersReads]

/-- The others ask before each reading. -/
theorem unguarded_vendors :
    ∀ parse ∈ [parseCitusCreateReferenceTable, parseCitusTruncateLocalData,
      parseCitusUpdateTableStatistics, parseCitusUndistributeTable,
      parseCitusAddLocalTableToMetadata, parseCitusAddNode, parseCitusRemoveNode,
      parseCitusSetCoordinatorHost, parseCitusDisableNode, parseCitusActivateNode,
      parseCitusSetNodeProperty, parseTimescaledbCreateHypertable,
      parseTimescaledbSetChunkTimeInterval, parseTimescaledbSetColumnstore,
      parseTimescaledbAddColumnstorePolicy, parseTimescaledbRemovePolicy,
      parseTimescaledbAddRetentionPolicy, parseTimescaledbCreateContinuousAggregate,
      parseTimescaledbAddContinuousAggregatePolicy, parsePgCronSchedule, parsePgCronUnschedule],
      unguarded (parse in_) = [] := by
  simp [parseCitusCreateReferenceTable, parseCitusTruncateLocalData,
    parseCitusUpdateTableStatistics, parseCitusUndistributeTable,
    parseCitusAddLocalTableToMetadata, parseCitusAddNode, parseCitusRemoveNode,
    parseCitusSetCoordinatorHost, parseCitusDisableNode, parseCitusActivateNode, parseCitusTable,
    parseCitusCascading, parseCitusNode, parseCitusSetNodeProperty,
    parseTimescaledbCreateHypertable, parseTimescaledbSetChunkTimeInterval,
    parseTimescaledbSetColumnstore, parseTimescaledbAddColumnstorePolicy,
    parseTimescaledbRemovePolicy, parseTimescaledbAddRetentionPolicy,
    parseTimescaledbCreateContinuousAggregate, parseTimescaledbAddContinuousAggregatePolicy,
    parsePgCronSchedule, parsePgCronUnschedule]

theorem unguarded_parseVendor (kind : VendorKind) :
    unguarded (parseVendor kind in_) = vendorReads kind in_ := by
  cases kind
  case citusDistributeTable => exact unguarded_parseCitusDistributeTable in_
  case citusDistributeFunction => exact unguarded_parseCitusDistributeFunction in_
  case citusAlterDistributedTable => exact unguarded_parseCitusAlterDistributedTable in_
  case citusDrainNode => exact unguarded_parseCitusDrainNode in_
  case citusRebalanceShards => exact unguarded_parseCitusRebalanceShards in_
  case citusEnsureWorkers => exact unguarded_parseCitusEnsureWorkers in_
  all_goals exact unguarded_vendors in_ _ (by simp [parseVendor])

end Unguarded

end Document
end Laswell
