import MergeCost.Word

/-!
Packing a sequence of sized items into bins of one capacity: each item goes into the current bin,
or opens the next one if it does not fit.
-/

namespace MergeCost

structure Bin where
  items : List Nat
  size : Nat
deriving Repr, DecidableEq

namespace Bin

/-- Packs the items after a bin that holds something, given with its last item first. -/
def fillFrom (capacity : Nat) (sizeOf : Nat → Nat) (current : Bin) : List Nat → List Bin
  | [] => [⟨current.items.reverse, current.size⟩]
  | item :: rest =>
      if capacity < current.size + sizeOf item then
        ⟨current.items.reverse, current.size⟩ :: fillFrom capacity sizeOf ⟨[item], sizeOf item⟩ rest
      else fillFrom capacity sizeOf ⟨item :: current.items, current.size + sizeOf item⟩ rest

def pack (capacity : Nat) (sizeOf : Nat → Nat) : List Nat → List Bin
  | [] => []
  | item :: rest => fillFrom capacity sizeOf ⟨[item], sizeOf item⟩ rest

/-! In words, a bin is not looked at before its size has been added up. -/

def fillInWords (capacity : Nat) (sizeOf : Nat → Nat) (current : Bin) :
    List Nat → Except Fault (List Bin)
  | [] => .ok [⟨current.items.reverse, current.size⟩]
  | item :: rest => do
      let size ← Word.add current.size (sizeOf item)
      if capacity < size then
        let next ← fillInWords capacity sizeOf ⟨[item], sizeOf item⟩ rest
        return ⟨current.items.reverse, current.size⟩ :: next
      else fillInWords capacity sizeOf ⟨item :: current.items, size⟩ rest

def packInWords (capacity : Nat) (sizeOf : Nat → Nat) : List Nat → Except Fault (List Bin)
  | [] => .ok []
  | item :: rest => fillInWords capacity sizeOf ⟨[item], sizeOf item⟩ rest

theorem fillFrom_items (capacity : Nat) (sizeOf : Nat → Nat) (current : Bin) (items : List Nat) :
    (fillFrom capacity sizeOf current items).flatMap Bin.items =
      current.items.reverse ++ items := by
  induction items generalizing current with
  | nil => simp [fillFrom]
  | cons item rest ih =>
      rw [fillFrom]
      split <;> simp [ih]

/-- The bins hold the items in their order, each one once. -/
theorem pack_items (capacity : Nat) (sizeOf : Nat → Nat) (items : List Nat) :
    (pack capacity sizeOf items).flatMap Bin.items = items := by
  cases items with
  | nil => rfl
  | cons item rest => simp [pack, fillFrom_items]

end Bin

end MergeCost
