import MergeCost.Error
import MergeCost.Rounding

/-!
Counts in words of 64 bits. What the simulator counts are natural numbers. It keeps them in words,
and a run in words breaks off at the first count that does not fit into one; until then it is the
run over natural numbers.
-/

namespace MergeCost

/-- A count that a word can hold. -/
abbrev Fits (count : Nat) : Prop := count < UInt64.size

namespace Word

def hold (count : Nat) : Except Fault Nat := if Fits count then .ok count else .error .overflow

def add (left right : Nat) : Except Fault Nat := hold (left + right)

def mul (left right : Nat) : Except Fault Nat := hold (left * right)

/-- Adds up from left to right. -/
def sum (counts : List Nat) : Except Fault Nat := counts.foldlM add 0

theorem hold_of_fits {count : Nat} (fits : Fits count) : hold count = .ok count := if_pos fits

theorem hold_of_not_fits {count : Nat} (large : ¬Fits count) : hold count = .error .overflow :=
  if_neg large

theorem hold_cases (count : Nat) : hold count = .ok count ∨ hold count = .error .overflow := by
  by_cases fits : Fits count
  · exact .inl (hold_of_fits fits)
  · exact .inr (hold_of_not_fits fits)

theorem hold_bind {α : Type} {count : Nat} (fits : Fits count) (next : Nat → Except Fault α) :
    hold count >>= next = next count := by
  rw [hold_of_fits fits]
  rfl

theorem map_hold {α : Type} (change : Nat → α) (count : Nat) :
    (hold count).map change = if Fits count then .ok (change count) else .error .overflow := by
  by_cases fits : Fits count
  · rw [hold_of_fits fits, if_pos fits]
    rfl
  · rw [hold_of_not_fits fits, if_neg fits]
    rfl

/-- A step that breaks off under a condition breaks off whatever follows it. -/
theorem bind_ite {α β : Type} {choice : Prop} [Decidable choice] (value : α) (fault : Fault)
    (next : α → Except Fault β) :
    (if choice then .ok value else .error fault) >>= next =
      if choice then next value else .error fault := by
  split <;> rfl

theorem fits_of_le {count bound : Nat} (within : count ≤ bound) (fits : Fits bound) : Fits count :=
  Nat.lt_of_le_of_lt within fits

/-- A part that does not fit makes for a sum that does not. -/
theorem hold_bind_add (start amount : Nat) : hold amount >>= add start = hold (start + amount) := by
  by_cases fits : Fits amount
  · rw [hold_of_fits fits]
    rfl
  · rw [hold_of_not_fits fits,
      hold_of_not_fits fun whole => fits (fits_of_le (Nat.le_add_left ..) whole)]
    rfl

theorem hold_bind_mul (amount : Nat) {factor : Nat} (some : 0 < factor) :
    (hold amount >>= fun held => mul held factor) = hold (amount * factor) := by
  by_cases fits : Fits amount
  · rw [hold_of_fits fits]
    rfl
  · rw [hold_of_not_fits fits,
      hold_of_not_fits fun whole => fits (fits_of_le (Nat.le_mul_of_pos_right _ some) whole)]
    rfl

/-- What has been added up so far is no more than the whole sum, so that only this has to fit. -/
theorem foldlM_add (counts : List Nat) {start : Nat} (fits : Fits start) :
    counts.foldlM add start = hold (start + total counts) := by
  induction counts generalizing start with
  | nil => exact (hold_of_fits fits).symm
  | cons count rest ih =>
      have whole : start + total (count :: rest) = start + count + total rest :=
        (Nat.add_assoc ..).symm
      rw [List.foldlM_cons, whole]
      by_cases next : Fits (start + count)
      · rw [add, hold_of_fits next]
        exact ih next
      · have large : ¬Fits (start + count + total rest) :=
          fun small => next (fits_of_le (Nat.le_add_right ..) small)
        rw [add, hold_of_not_fits next, hold_of_not_fits large]
        rfl

theorem sum_eq (counts : List Nat) : sum counts = hold (total counts) := by
  rw [sum, foldlM_add counts (by decide), Nat.zero_add]

end Word

/-- In words a computation comes to the same if there is room for all that it counts, and breaks off
if there is not. -/
structure EndsWithin {α : Type} (room : Prop) (inWords exact : Except Fault α) : Prop where
  ends : room → inWords = exact
  breaks : ¬room → inWords = .error .overflow

namespace EndsWithin

variable {α : Type} {room other : Prop} {inWords exact : Except Fault α}

theorem of_ends (holds : room) (ends : inWords = exact) : EndsWithin room inWords exact :=
  ⟨fun _ => ends, fun large => absurd holds large⟩

theorem of_breaks (large : ¬room) (breaks : inWords = .error .overflow) :
    EndsWithin room inWords exact :=
  ⟨fun holds => absurd holds large, fun _ => breaks⟩

theorem congr (limits : EndsWithin room inWords exact) (same : room ↔ other) :
    EndsWithin other inWords exact :=
  ⟨fun holds => limits.ends (same.mpr holds), fun large => limits.breaks (mt same.mp large)⟩

/-- A computation in words that has ended shows that there was room. -/
theorem eq_of_ok (limits : EndsWithin room inWords exact) {value : α}
    (ended : inWords = .ok value) : exact = .ok value := by
  by_cases holds : room
  · exact (limits.ends holds).symm.trans ended
  · cases ended.symm.trans (limits.breaks holds)

end EndsWithin

end MergeCost
