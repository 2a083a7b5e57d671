import MergeCost.Access

/-!
What a run reports while it goes on: indexes being created, cold data being touched, passes of
reorganization, and every access to a device.
-/

namespace MergeCost

inductive Event (τ : Type) where
  | created (index wrapped : String) (partitions coldEntries : Nat) (device : String)
  | touched (partitions entries : Nat) (invalidation loading : τ)
  | reorganized (merged blocksBefore blocksAfter liveBytes reclaimedEntries : Nat) (time : τ)
  | accessed (device : String) (access : Access) (bytes : Nat) (time : τ)
deriving Repr

namespace Event

inductive Level where
  | info
  | debug
  | trace
deriving Repr, DecidableEq

def Level.name : Level → String
  | .info => "INFO"
  | .debug => "DEBUG"
  | .trace => "TRACE"

inductive Target where
  | merging
  | disk
deriving Repr, DecidableEq

def Target.name : Target → String
  | .merging => "nvmsim::am"
  | .disk => "nvmsim::disk"

inductive Field (τ : Type) where
  | text (value : String)
  | count (value : Nat)
  | time (value : τ)
deriving Repr

variable {τ : Type}

def target : Event τ → Target
  | accessed .. => .disk
  | _ => .merging

def level : Event τ → Level
  | created .. => .info
  | touched .. | reorganized .. => .debug
  | accessed .. => .trace

def message : Event τ → String
  | created .. => "adaptive merging index created"
  | touched .. => "partitions touched"
  | reorganized .. => "LEB reorganization"
  | accessed .. => "disk access"

def fields : Event τ → List (String × Field τ)
  | created index wrapped partitions coldEntries device =>
      [("index", .text index), ("wrapped", .text wrapped), ("partitions", .count partitions),
        ("cold_entries", .count coldEntries), ("device", .text device)]
  | touched partitions entries invalidation loading =>
      [("partitions", .count partitions), ("entries", .count entries),
        ("invalidation", .time invalidation), ("loading", .time loading)]
  | reorganized merged blocksBefore blocksAfter liveBytes reclaimedEntries time =>
      [("merged", .count merged), ("lebs_before", .count blocksBefore),
        ("lebs_after", .count blocksAfter), ("live_bytes", .count liveBytes),
        ("reclaimed_entries", .count reclaimedEntries), ("time", .time time)]
  | accessed device access bytes time =>
      [("model", .text device), ("access", .text access.name), ("bytes", .count bytes),
        ("time", .time time)]

/-- The filter that shows events of the simulator from a level on, and warnings of everything
else. -/
def defaultFilter (level : String) : String :=
  "warn," ++ Target.merging.name ++ "=" ++ level ++ "," ++ Target.disk.name ++ "=" ++ level

end Event

end MergeCost
