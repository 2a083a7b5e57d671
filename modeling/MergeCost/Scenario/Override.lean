import MergeCost.Scenario.Basic
import MergeCost.Text.Count

/-!
Settings of a scenario that variables can override.
-/

namespace MergeCost

/-- The settings with a variable, in the order in which the variables are looked up. -/
inductive Setting where
  | keySize
  | dataSize
  | nodeSize
  | partitionSize
  | startingEntries
deriving Repr, DecidableEq

namespace Setting

def all : List Setting := [keySize, dataSize, nodeSize, partitionSize, startingEntries]

/-- The name of the variable of a setting. -/
def variableName : Setting → String
  | keySize => "NVMSIM_KEY_SIZE"
  | dataSize => "NVMSIM_DATA_SIZE"
  | nodeSize => "NVMSIM_NODE_SIZE"
  | partitionSize => "NVMSIM_PARTITION_SIZE"
  | startingEntries => "NVMSIM_STARTING_ENTRIES"

variable {τ : Type}

def get (setting : Setting) (scenario : Scenario τ) : Nat :=
  match setting with
  | keySize => scenario.keySize
  | dataSize => scenario.dataSize
  | nodeSize => scenario.nodeSize
  | partitionSize => scenario.partitionSize
  | startingEntries => scenario.startingEntries

def set (setting : Setting) (count : Nat) (scenario : Scenario τ) : Scenario τ :=
  match setting with
  | keySize => { scenario with keySize := count }
  | dataSize => { scenario with dataSize := count }
  | nodeSize => { scenario with nodeSize := count }
  | partitionSize => { scenario with partitionSize := count }
  | startingEntries => { scenario with startingEntries := count }

theorem get_set (setting other : Setting) (count : Nat) (scenario : Scenario τ) :
    other.get (setting.set count scenario) =
      if other = setting then count else other.get scenario := by
  cases setting <;> cases other <;> rfl

end Setting

namespace Scenario

variable {τ : Type}

/-- Overrides settings in order, up to the first value that is no count. -/
def overrideEach (lookup : String → Option String) :
    List Setting → Scenario τ → Scenario τ × Except (Error τ) Unit
  | [], scenario => (scenario, .ok ())
  | setting :: rest, scenario =>
      match lookup setting.variableName with
      | none => overrideEach lookup rest scenario
      | some value =>
          match Text.count? value with
          | some count => overrideEach lookup rest (setting.set count scenario)
          | none => (scenario, .error (.config (.notANumber setting.variableName value)))

/-- Overrides the settings whose variables are set. Settings before a refused value keep their new
values. -/
def override (lookup : String → Option String) (scenario : Scenario τ) :
    Scenario τ × Except (Error τ) Unit :=
  overrideEach lookup Setting.all scenario

end Scenario

end MergeCost
