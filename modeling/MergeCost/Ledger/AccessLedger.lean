import MergeCost.Ledger.Sample
import MergeCost.Word

/-!
The ledger of a device: time, bytes and number of the accesses of each kind. The times stand in one
array, the bytes and after them the numbers in another; the raw counters come in the order of both.
Sums and averages are computed when they are asked for.

A run on a ledger counts in words. It ends in a result or in a refusal, in either case with a
ledger, or it breaks off.
-/

namespace MergeCost

/-- What the accesses of one kind have taken together. -/
structure Traffic (τ : Type) where
  time : τ
  bytes : Nat
  operations : Nat
deriving Repr, BEq

namespace Traffic

variable {τ : Type} [Scalar τ]

def empty : Traffic τ := ⟨Scalar.zero, 0, 0⟩

def record (traffic : Traffic τ) (time : τ) (bytes : Nat) : Traffic τ :=
  ⟨traffic.time + time, traffic.bytes + bytes, traffic.operations + 1⟩

def averageTime (traffic : Traffic τ) : τ :=
  if traffic.operations = 0 then Scalar.zero
  else traffic.time / Scalar.ofNat traffic.operations

/-- The whole number of bytes per access; 0 if there was none. -/
def averageBytes (traffic : Traffic τ) : Nat := traffic.bytes / traffic.operations

end Traffic

structure AccessLedger (τ : Type) where
  times : Vector τ 3
  /-- The bytes of each kind of access, and then the numbers of accesses of each kind. -/
  counts : Vector Nat 6
deriving Repr, BEq

namespace AccessLedger

variable {τ : Type}

def traffic (ledger : AccessLedger τ) (access : Access) : Traffic τ :=
  have inside := access.index_lt
  ⟨ledger.times[access.index], ledger.counts[access.index], ledger.counts[3 + access.index]⟩

theorem times_toList (ledger : AccessLedger τ) :
    ledger.times.toList = Access.all.map fun access => (ledger.traffic access).time := by
  apply List.ext_getElem
  · simp [Access.all]
  · intro position inside _
    rcases position with _ | _ | _ | position
    · rfl
    · rfl
    · rfl
    · rw [Vector.length_toList] at inside
      omega

theorem counts_toList (ledger : AccessLedger τ) :
    ledger.counts.toList = (Access.all.map fun access => (ledger.traffic access).bytes) ++
      Access.all.map fun access => (ledger.traffic access).operations := by
  apply List.ext_getElem
  · simp [Access.all]
  · intro position inside _
    rcases position with _ | _ | _ | _ | _ | _ | position
    · rfl
    · rfl
    · rfl
    · rfl
    · rfl
    · rfl
    · rw [Vector.length_toList] at inside
      omega

/-- A ledger is known by what it has for each kind of access. -/
theorem ext_traffic {left right : AccessLedger τ}
    (same : ∀ access, left.traffic access = right.traffic access) : left = right := by
  have times : left.times = right.times := by
    rw [← Vector.toList_inj, times_toList, times_toList]
    simp only [same]
  have counts : left.counts = right.counts := by
    rw [← Vector.toList_inj, counts_toList, counts_toList]
    simp only [same]
  cases left
  cases right
  exact congr (congrArg mk times) counts

/-- No counter has grown too large for a word. -/
protected def Fits (ledger : AccessLedger τ) : Prop := ∀ count ∈ ledger.counts.toList, Fits count

instance (ledger : AccessLedger τ) : Decidable ledger.Fits :=
  inferInstanceAs (Decidable (∀ count ∈ ledger.counts.toList, Fits count))

variable [Scalar τ]

def empty : AccessLedger τ := ⟨Vector.replicate 3 Scalar.zero, Vector.replicate 6 0⟩

def record (ledger : AccessLedger τ) (access : Access) (time : τ) (bytes : Nat) : AccessLedger τ :=
  have inside := access.index_lt
  let counts := ledger.counts.set access.index (ledger.counts[access.index] + bytes)
  ⟨ledger.times.set access.index (ledger.times[access.index] + time),
    counts.set (3 + access.index) (counts[3 + access.index] + 1)⟩

def value (ledger : AccessLedger τ) : AccessCounter → Reading τ
  | .time access =>
      have inside := AccessCounter.index_time_lt access
      .time ledger.times[(AccessCounter.time access).index]
  | .bytes access =>
      have inside := AccessCounter.index_bytes_lt access
      .count ledger.counts[(AccessCounter.bytes access).index - 3]
  | .operations access =>
      have inside := AccessCounter.index_operations_lt access
      .count ledger.counts[(AccessCounter.operations access).index - 3]
  | .totalTime => .time (Scalar.sum ledger.times.toList)
  | .totalBytes => .count (total (ledger.counts.toList.take 3))
  | .totalOperations => .count (total (ledger.counts.toList.drop 3))
  | .averageTime access => .time (ledger.traffic access).averageTime
  | .averageBytes access => .count (ledger.traffic access).averageBytes

/-- Reads a counter in words: the totals are sums of others, which may not fit. -/
def valueInWords (ledger : AccessLedger τ) : AccessCounter → Except Fault (Reading τ)
  | .totalBytes => return .count (← Word.sum (ledger.counts.toList.take 3))
  | .totalOperations => return .count (← Word.sum (ledger.counts.toList.drop 3))
  | counter => .ok (ledger.value counter)

def snapshot (ledger : AccessLedger τ) : List (Sample τ) :=
  AccessCounter.all.map fun counter => ⟨counter.name, ledger.value counter⟩

@[simp] theorem traffic_empty (kind : Access) : (empty : AccessLedger τ).traffic kind = .empty := by
  cases kind <;> rfl

theorem traffic_record (ledger : AccessLedger τ) (kind : Access) (time : τ) (bytes : Nat) :
    (ledger.record kind time bytes).traffic kind = (ledger.traffic kind).record time bytes := by
  cases kind <;> simp [record, traffic, Traffic.record, Access.index]

theorem traffic_record_of_ne (ledger : AccessLedger τ) {kind other : Access}
    (different : other ≠ kind) (time : τ) (bytes : Nat) :
    (ledger.record kind time bytes).traffic other = ledger.traffic other := by
  cases kind <;> cases other <;> first
    | contradiction
    | simp [record, traffic, Access.index]

theorem value_bytes (ledger : AccessLedger τ) (access : Access) :
    ledger.value (.bytes access) = .count (ledger.traffic access).bytes := by
  cases access <;> rfl

theorem value_operations (ledger : AccessLedger τ) (access : Access) :
    ledger.value (.operations access) = .count (ledger.traffic access).operations := by
  cases access <;> rfl

/-! Runs -/

abbrev Run (τ α : Type) : Type := ExceptT (Error τ) (StateT (AccessLedger τ) (Except Fault)) α

namespace Run

variable {α : Type}

/-- The result or refusal of a run, and the ledger that it leaves. -/
def outcome (run : Run τ α) (ledger : AccessLedger τ) :
    Except Fault (Except (Error τ) α × AccessLedger τ) :=
  run.run.run ledger

def orCrash (step : Except Fault α) : Run τ α := ExceptT.lift (StateT.lift step)

def setTime (position : Nat) (time : τ) : Run τ Unit := do
  if inside : position < 3 then
    modify fun ledger => { ledger with times := ledger.times.set position time }
  else orCrash (.error (.noCounter position))

def setCount (position count : Nat) : Run τ Unit := do
  if inside : position < 6 then
    modify fun ledger => { ledger with counts := ledger.counts.set position count }
  else orCrash (.error (.noCounter position))

def addTime (position : Nat) (time : τ) : Run τ Unit := do
  match (← get).times[position]? with
  | some before => setTime position (before + time)
  | none => orCrash (.error (.noCounter position))

def addCount (position amount : Nat) : Run τ Unit := do
  match (← get).counts[position]? with
  | some before => setCount position (← orCrash (Word.add before amount))
  | none => orCrash (.error (.noCounter position))

def record (access : Access) (time : τ) (bytes : Nat) : Run τ Unit := do
  addTime access.index time
  addCount access.index bytes
  addCount (3 + access.index) 1

/-- Adds to a raw counter. A derived counter and an amount of the wrong kind are refused. -/
def add (counter : AccessCounter) (amount : Reading τ) : Run τ Unit := do
  if counter.isDerived then throw (.argument (.derivedAdded counter))
  match counter.isTime, amount with
  | true, .time seconds => addTime counter.index seconds
  | false, .count count => addCount (counter.index - 3) count
  | _, _ => throw (.argument (.kindMismatch counter))

/-- Sets a raw counter to zero. A derived counter is refused. -/
def reset (counter : AccessCounter) : Run τ Unit := do
  if counter.isDerived then throw (.argument (.derivedReset counter))
  if counter.isTime then setTime counter.index Scalar.zero else setCount (counter.index - 3) 0

def clear : Run τ Unit := modify fun _ => .empty

end Run

def recordInWords (ledger : AccessLedger τ) (access : Access) (time : τ) (bytes : Nat) :
    Except Fault (AccessLedger τ) :=
  return (← (Run.record access time bytes).outcome ledger).2

end AccessLedger

end MergeCost
