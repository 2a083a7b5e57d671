/-!
The three ways to access a device.
-/

namespace MergeCost

/-- Reading, writing to fresh pages, or replacing what pages hold. -/
inductive Access where
  | read
  | write
  | overwrite
deriving Repr, DecidableEq

namespace Access

def all : List Access := [.read, .write, .overwrite]

def index : Access → Nat
  | .read => 0
  | .write => 1
  | .overwrite => 2

theorem index_lt (access : Access) : access.index < 3 := by cases access <;> decide

def name : Access → String
  | .read => "Read"
  | .write => "Write"
  | .overwrite => "Overwrite"

/-- The spelling within the names of counters. -/
def label : Access → String
  | .read => "READ"
  | .write => "WRITE"
  | .overwrite => "OVERWRITE"

end Access

end MergeCost
