import MergeCost.Access

/-!
The counters of a device ledger, with their order and names. The raw ones come first; the derived
ones are sums and averages of them.
-/

namespace MergeCost

inductive AccessCounter where
  | time (access : Access)
  | bytes (access : Access)
  | operations (access : Access)
  | totalTime
  | totalBytes
  | totalOperations
  | averageTime (access : Access)
  | averageBytes (access : Access)
deriving Repr, DecidableEq

namespace AccessCounter

def all : List AccessCounter :=
  Access.all.map time ++ Access.all.map bytes ++ Access.all.map operations
    ++ [totalTime, totalBytes, totalOperations]
    ++ Access.all.map averageTime ++ Access.all.map averageBytes

def index : AccessCounter → Nat
  | time access => access.index
  | bytes access => 3 + access.index
  | operations access => 6 + access.index
  | totalTime => 9
  | totalBytes => 10
  | totalOperations => 11
  | averageTime access => 12 + access.index
  | averageBytes access => 15 + access.index

theorem index_time_lt (access : Access) : (time access).index < 3 := access.index_lt

/-- The counts stand in an array of their own, which begins with the first counter of bytes. -/
theorem index_bytes_lt (access : Access) : (bytes access).index - 3 < 6 := by
  have inside := access.index_lt
  simp only [index]
  omega

theorem index_operations_lt (access : Access) : (operations access).index - 3 < 6 := by
  have inside := access.index_lt
  simp only [index]
  omega

def ofIndex? (position : Nat) : Option AccessCounter := all[position]?

theorem ofIndex?_index (counter : AccessCounter) : ofIndex? counter.index = some counter := by
  cases counter <;> first | rfl | (rename_i access; cases access <;> rfl)

/-- The counters from one to another, both included; none if they stand the other way round. -/
def between (first last : AccessCounter) : List AccessCounter :=
  (all.take (last.index + 1)).drop first.index

def isDerived : AccessCounter → Bool
  | time _ | bytes _ | operations _ => false
  | _ => true

def isTime : AccessCounter → Bool
  | time _ | totalTime | averageTime _ => true
  | _ => false

def name : AccessCounter → String
  | time access => "MEMORY_COUNTER_RW_" ++ access.label ++ "_TOTAL_TIME"
  | bytes access => "MEMORY_COUNTER_RW_" ++ access.label ++ "_TOTAL_BYTES"
  | operations access => "MEMORY_COUNTER_RW_" ++ access.label ++ "_TOTAL_OPERATIONS"
  | totalTime => "MEMORY_COUNTER_RO_TOTAL_TIME"
  | totalBytes => "MEMORY_COUNTER_RO_TOTAL_BYTES"
  | totalOperations => "MEMORY_COUNTER_RO_TOTAL_OPERATIONS"
  | averageTime access => "MEMORY_COUNTER_RO_" ++ access.label ++ "_AVG_TIME"
  | averageBytes access => "MEMORY_COUNTER_RO_" ++ access.label ++ "_AVG_BYTES"

end AccessCounter

end MergeCost
