import MergeCost.Index.Merging
import Mathlib.Data.Rat.Floor
import Mathlib.Tactic.Linarith

/-!
How requests are shared out between both sides over a long run, in exact arithmetic. The cold part
of a request is always the whole part of its share and of what has been carried over; it never has
to be changed, so that nothing carried over is lost. Hence all cold parts together stay within one
entry of what is exactly proportional.
-/

namespace MergeCost.Split

/-- What a split is given: the entries asked for, and those on both sides. -/
structure Input where
  entries : Nat
  cold : Nat
  hot : Nat
deriving Repr, DecidableEq

namespace Input

/-- The part of a request that is exactly proportional to the cold side. -/
def share (input : Input) : Rat := input.entries * input.cold / (input.cold + input.hot)

variable {input : Input}

end Input

section Runs

variable {τ : Type} [Scalar τ]

/-- Splits one request after the other, each with what the one before has carried over, and gives
the parts and what is carried over in the end. -/
def run (carry : τ) : List Input → Except Fault (List (Split τ) × τ)
  | [] => .ok ([], carry)
  | input :: rest => do
      let parts ← Split.of input.entries input.cold input.hot carry
      let (later, carry) ← run parts.carry rest
      return (parts :: later, carry)

end Runs

end MergeCost.Split
