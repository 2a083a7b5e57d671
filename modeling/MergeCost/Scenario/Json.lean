import MergeCost.Scenario.Basic
import MergeCost.Device.Json

/-!
Scenarios as JSON. A text need only list what differs from the standard scenario; a policy of
reorganization has to be complete.
-/

namespace MergeCost

namespace ReorganizationPolicy

def fields : List Json.Field :=
  [⟨"reorganization_max_blocks", []⟩,
    ⟨"reorganization_blocks_threshold", ["reorganization_blocks_treshold"]⟩,
    ⟨"leb_usage_threshold", []⟩]

def toJson (policy : ReorganizationPolicy Float) : Json :=
  .ofMembers [("reorganization_max_blocks", .ofNat policy.maxBlocks),
    ("reorganization_blocks_threshold", .ofNat policy.triggerBlocks),
    ("leb_usage_threshold", .ofDouble policy.usageThreshold)]

def ofJson (value : Json) : Except Json.Fault (ReorganizationPolicy Float) := do
  let record ← value.toRecord fields
  let maxBlocks ← record.required "reorganization_max_blocks" Json.toCount
  let triggerBlocks ← record.required "reorganization_blocks_threshold" Json.toCount
  let usageThreshold ← record.required "leb_usage_threshold" Json.toDouble
  return { maxBlocks, triggerBlocks, usageThreshold }

def parse (text : String) : Except (Error Float) (ReorganizationPolicy Float) :=
  (Json.parse text >>= ofJson).mapError .serialization

end ReorganizationPolicy

namespace Scenario

def fields : List Json.Field :=
  ["key_size", "data_size", "node_size", "partition_size", "starting_entries", "memory",
    "lazy"].map (⟨·, []⟩)

def reorganizationToJson : Option (ReorganizationPolicy Float) → Json
  | none => .null
  | some policy => policy.toJson

def reorganizationOfJson : Json → Except Json.Fault (Option (ReorganizationPolicy Float))
  | .null => .ok none
  | value => (ReorganizationPolicy.ofJson value).map some

def toJson (scenario : Scenario Float) : Json :=
  .ofMembers [("key_size", .ofNat scenario.keySize), ("data_size", .ofNat scenario.dataSize),
    ("node_size", .ofNat scenario.nodeSize), ("partition_size", .ofNat scenario.partitionSize),
    ("starting_entries", .ofNat scenario.startingEntries), ("memory", scenario.memory.toJson),
    ("lazy", reorganizationToJson scenario.reorganization)]

/-- Reads a scenario. The profile of the device lies one container deep. -/
def ofJson (value : Json) : Except Json.Fault (Scenario Float) := do
  let record ← value.toRecord fields
  let keySize ← record.field "key_size" standard.keySize Json.toCount
  let dataSize ← record.field "data_size" standard.dataSize Json.toCount
  let nodeSize ← record.field "node_size" standard.nodeSize Json.toCount
  let partitionSize ← record.field "partition_size" standard.partitionSize Json.toCount
  let startingEntries ← record.field "starting_entries" standard.startingEntries Json.toCount
  let memory ← record.field "memory" standard.memory (DeviceProfile.ofJson (Json.depthLimit - 1))
  let reorganization ← record.field "lazy" standard.reorganization reorganizationOfJson
  return {
    keySize, dataSize, nodeSize, partitionSize, startingEntries, memory, reorganization }

def parse (text : String) : Except (Error Float) (Scenario Float) :=
  (Json.parse text >>= ofJson).mapError .serialization

end Scenario

end MergeCost
