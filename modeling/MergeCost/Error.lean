import MergeCost.Ledger.AccessCounter
import MergeCost.Json.Basic
import MergeCost.Decimal.Text
import MergeCost.Text.Quoted

/-!
Why something is refused, and the wording of it.

Causes are values; `Error.report` words them. A `Fault` is no refusal: it stands for a run that
cannot go on, because a promise between two parts of the simulator is broken or a count has grown
too large.
-/

namespace MergeCost

/-- What is wrong with the parameters of something that is to be built. -/
inductive ConfigFault (τ : Type) where
  | emptyRecord
  | emptyNode
  | noKeyAndData
  | nodeBelowRecord (node record : Nat)
  | partitionBelowRecord (partition record : Nat)
  | ssdPageSize
  | ssdBlockSize (block page : Nat)
  | ssdTimings
  | pcmPageSize
  | pcmTimings
  | noBlocksPerPass
  | noTrigger
  | usageThreshold (threshold : τ)
  | notByteAddressable (device : String)
  | noReorganization
  | notANumber (setting value : String)
deriving Repr

/-- What is wrong with an argument of an operation. -/
inductive ArgumentFault (τ : Type) where
  | derivedAdded (counter : AccessCounter)
  | derivedReset (counter : AccessCounter)
  | kindMismatch (counter : AccessCounter)
  | selectivity (share : τ) (entries : Nat)
deriving Repr

inductive Error (τ : Type) where
  | config (fault : ConfigFault τ)
  | argument (fault : ArgumentFault τ)
  | bulkloadUnsupported (index : String)
  | io
  | serialization (fault : Json.Fault)
deriving Repr

/-- A broken promise between two parts of the simulator, or a count that has grown too large. -/
inductive Fault where
  | partitionOutOfRange (partition : Nat)
  | nothingLeftToLocate
  | boundsCrossed (lower upper : Nat)
  | entriesUnderflow
  | entriesDiverged (counted expected : Nat)
  | staleUnderflow
  /-- A place past the end of the counters of a ledger. -/
  | noCounter (position : Nat)
  /-- A count that does not fit into a word. -/
  | overflow
deriving Repr, DecidableEq

inductive ErrorKind where
  | invalidConfig
  | invalidArgument
  | unsupported
  | io
  | serialization
deriving Repr, DecidableEq

/-- The wording of an error. Only an invalid argument has a context. -/
structure Report where
  kind : ErrorKind
  detail : String
  context : String
deriving Repr, DecidableEq

def Report.text (report : Report) : String :=
  match report.kind with
  | .invalidConfig => "invalid configuration: " ++ report.detail
  | .invalidArgument => "invalid argument: " ++ report.detail ++ "\nContext: " ++ report.context
  | .unsupported => "unsupported operation: " ++ report.detail
  | .io => "io error: " ++ report.detail
  | .serialization => "serialization error: " ++ report.detail

namespace ConfigFault

def belowRecord (what : String) (size record : Nat) : String :=
  what ++ " size " ++ toString size ++ " is smaller than one record (" ++ toString record
    ++ " bytes)"

def detail : ConfigFault Float → String
  | emptyRecord => "record size must be > 0"
  | emptyNode => "node size must be > 0"
  | noKeyAndData => "key_size + data_size must be > 0"
  | nodeBelowRecord node record => belowRecord "node" node record
  | partitionBelowRecord partition record => belowRecord "partition" partition record
  | ssdPageSize => "SSD page size must be > 0"
  | ssdBlockSize block page =>
      "SSD block size " ++ toString block ++ " must be a non-zero multiple of page size "
        ++ toString page
  | ssdTimings => "SSD timings must be finite and non-negative"
  | pcmPageSize => "PCM page size must be > 0"
  | pcmTimings => "PCM timings must be finite and non-negative"
  | noBlocksPerPass => "reorganization_max_blocks must be >= 1"
  | noTrigger => "reorganization_blocks_threshold must be >= 1"
  | usageThreshold threshold =>
      "leb_usage_threshold " ++ Decimal.plainText threshold ++ " outside (0, 1]"
  | notByteAddressable device => "PCMAdaptiveMerging requires a PCM disk, got " ++ device
  | noReorganization => "LazyAdaptiveMerging requires a \x60lazy\x60 section"
  | notANumber setting value => setting ++ "=" ++ Text.quoted value ++ " is not a valid number"

end ConfigFault

namespace ArgumentFault

def detail : ArgumentFault Float → String
  | derivedAdded counter => counter.name ++ " is derived and cannot be pegged"
  | derivedReset counter => counter.name ++ " is derived and cannot be reset"
  | kindMismatch counter => "value kind does not match counter " ++ counter.name
  | selectivity share _ => "selectivity " ++ Decimal.plainText share ++ " outside [0, 1]"

def context : ArgumentFault Float → String
  | derivedAdded _ | kindMismatch _ => "MemoryCounters::peg_counter"
  | derivedReset _ => "MemoryCounters::reset_counter"
  | selectivity _ entries => "index with " ++ toString entries ++ " entries"

end ArgumentFault

namespace Error

def report : Error Float → Report
  | config fault => ⟨.invalidConfig, fault.detail, ""⟩
  | argument fault => ⟨.invalidArgument, fault.detail, fault.context⟩
  | bulkloadUnsupported index => ⟨.unsupported, index ++ " does not support bulkload", ""⟩
  | io => ⟨.io, "file not accessible", ""⟩
  | serialization fault => ⟨.serialization, fault.message, ""⟩

def message (error : Error Float) : String := error.report.text

end Error

end MergeCost
