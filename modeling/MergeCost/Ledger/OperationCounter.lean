/-!
The operations of an index, and the counters of its ledger with their order and names.
-/

namespace MergeCost

/-- What a caller asks of an index. -/
inductive Request where
  | insert
  | bulkload
  | findPoint
  | findRange
  | delete
deriving Repr, DecidableEq

/-- What is entered into the ledger of an index: the requests, and the two parts of a touch of cold
data. The parts are already contained in the request that made the touch. -/
inductive Operation where
  | request (request : Request)
  | invalidation
  | loading
deriving Repr, DecidableEq

namespace Request

def all : List Request := [.insert, .bulkload, .findPoint, .findRange, .delete]

def index : Request → Nat
  | .insert => 0
  | .bulkload => 1
  | .findPoint => 2
  | .findRange => 3
  | .delete => 4

/-- The spelling within the names of counters. -/
def label : Request → String
  | .insert => "INSERT"
  | .bulkload => "BULKLOAD"
  | .findPoint => "FIND_POINT"
  | .findRange => "FIND_RANGE"
  | .delete => "DELETE"

end Request

namespace Operation

def all : List Operation := Request.all.map request ++ [invalidation, loading]

def index : Operation → Nat
  | request asked => asked.index
  | invalidation => 5
  | loading => 6

/-- The start of the names of the counters of an operation. -/
def counterName : Operation → String
  | request asked => "INDEX_COUNTER_RW_" ++ asked.label
  | invalidation => "INDEX_AM_COUNTER_RO_INVALIDATION"
  | loading => "INDEX_AM_COUNTER_RO_LOADING"

end Operation

inductive OperationCounter where
  | time (operation : Operation)
  | operations (operation : Operation)
  | totalTime
  | totalOperations
  | averageTime (request : Request)
deriving Repr, DecidableEq

namespace OperationCounter

def all : List OperationCounter :=
  Operation.all.map time ++ Operation.all.map operations ++ [totalTime, totalOperations]
    ++ Request.all.map averageTime

def index : OperationCounter → Nat
  | time operation => operation.index
  | operations operation => 7 + operation.index
  | totalTime => 14
  | totalOperations => 15
  | averageTime request => 16 + request.index

def ofIndex? (position : Nat) : Option OperationCounter := all[position]?

/-- The counters from one to another, both included; none if they stand the other way round. -/
def between (first last : OperationCounter) : List OperationCounter :=
  (all.take (last.index + 1)).drop first.index

def name : OperationCounter → String
  | time operation => operation.counterName ++ "_TOTAL_TIME"
  | operations operation => operation.counterName ++ "_TOTAL_OPERATIONS"
  | totalTime => "INDEX_COUNTER_RO_TOTAL_TIME"
  | totalOperations => "INDEX_COUNTER_RO_TOTAL_OPERATIONS"
  | averageTime request => "INDEX_COUNTER_RO_" ++ request.label ++ "_AVG_TIME"

end OperationCounter

end MergeCost
