import MergeCost.Cold.Packing
import Mathlib.Algebra.BigOperators.Group.List.Basic
import Mathlib.Algebra.Ring.Nat
import Mathlib.Data.List.Chain

/-!
What packed bins hold: none is empty, each knows the size of its items, and none is over its
capacity as long as no single item is. A bin is closed only before an item that does not fit into
it, and this leaves one way to pack the items.
-/

namespace MergeCost.Bin

theorem fillFrom_size {capacity : Nat} {sizeOf : Nat → Nat} {current bin : Bin} {items : List Nat}
    (exact : current.size = (current.items.map sizeOf).sum)
    (member : bin ∈ fillFrom capacity sizeOf current items) :
    bin.size = (bin.items.map sizeOf).sum := by
  induction items generalizing current with
  | nil =>
      simp only [fillFrom, List.mem_singleton] at member
      subst member
      simpa using exact
  | cons item rest ih =>
      rw [fillFrom] at member
      split at member
      · rcases List.mem_cons.mp member with rfl | member
        · simpa using exact
        · exact ih (by simp) member
      · exact ih (by simp [exact, Nat.add_comm]) member

theorem pack_size {capacity : Nat} {sizeOf : Nat → Nat} {bin : Bin} {items : List Nat}
    (member : bin ∈ pack capacity sizeOf items) : bin.size = (bin.items.map sizeOf).sum := by
  cases items with
  | nil => simp [pack] at member
  | cons item rest => exact fillFrom_size (by simp) member

theorem fillFrom_nonempty {capacity : Nat} {sizeOf : Nat → Nat} {current bin : Bin}
    {items : List Nat} (nonempty : current.items ≠ [])
    (member : bin ∈ fillFrom capacity sizeOf current items) : bin.items ≠ [] := by
  induction items generalizing current with
  | nil =>
      simp only [fillFrom, List.mem_singleton] at member
      subst member
      simpa using nonempty
  | cons item rest ih =>
      rw [fillFrom] at member
      split at member
      · rcases List.mem_cons.mp member with rfl | member
        · simpa using nonempty
        · exact ih (by simp) member
      · exact ih (by simp) member

theorem pack_nonempty {capacity : Nat} {sizeOf : Nat → Nat} {bin : Bin} {items : List Nat}
    (member : bin ∈ pack capacity sizeOf items) : bin.items ≠ [] := by
  cases items with
  | nil => simp [pack] at member
  | cons item rest => exact fillFrom_nonempty (by simp) member

theorem fillFrom_size_le {capacity : Nat} {sizeOf : Nat → Nat} {current bin : Bin}
    {items : List Nat} (within : current.size ≤ capacity)
    (each : ∀ item ∈ items, sizeOf item ≤ capacity)
    (member : bin ∈ fillFrom capacity sizeOf current items) : bin.size ≤ capacity := by
  induction items generalizing current with
  | nil =>
      simp only [fillFrom, List.mem_singleton] at member
      subst member
      exact within
  | cons item rest ih =>
      have others := fun other (inside : other ∈ rest) => each other (by simp [inside])
      rw [fillFrom] at member
      split at member
      · rcases List.mem_cons.mp member with rfl | member
        · exact within
        · exact ih (each item (by simp)) others member
      · exact ih (by simp only; omega) others member

theorem pack_size_le {capacity : Nat} {sizeOf : Nat → Nat} {bin : Bin} {items : List Nat}
    (each : ∀ item ∈ items, sizeOf item ≤ capacity)
    (member : bin ∈ pack capacity sizeOf items) : bin.size ≤ capacity := by
  cases items with
  | nil => simp [pack] at member
  | cons item rest =>
      have others := fun other (inside : other ∈ rest) => each other (by simp [inside])
      exact fillFrom_size_le (each item (by simp)) others member

/-! How many bins are filled -/

theorem fillFrom_append {capacity : Nat} {sizeOf : Nat → Nat} {current : Bin}
    {items : List Nat} (fits : current.size + (items.map sizeOf).sum ≤ capacity)
    (rest : List Nat) :
    fillFrom capacity sizeOf current (items ++ rest) =
      fillFrom capacity sizeOf
        ⟨items.reverse ++ current.items, current.size + (items.map sizeOf).sum⟩ rest := by
  induction items generalizing current with
  | nil => rfl
  | cons item items ih =>
      rw [List.map_cons, List.sum_cons] at fits
      rw [List.cons_append, fillFrom, if_neg (by omega), ih (by simp only; omega)]
      simp [Nat.add_assoc]

/-- Items that fit into one bin open at most one more. -/
theorem fillFrom_append_length {capacity : Nat} {sizeOf : Nat → Nat} (current : Bin)
    {items : List Nat} (fits : (items.map sizeOf).sum ≤ capacity) (rest : List Nat) :
    ∃ next, (fillFrom capacity sizeOf current (items ++ rest)).length ≤
      (fillFrom capacity sizeOf next rest).length + 1 := by
  induction items generalizing current with
  | nil => exact ⟨current, Nat.le_succ _⟩
  | cons item items ih =>
      rw [List.map_cons, List.sum_cons] at fits
      rw [List.cons_append, fillFrom]
      split
      · rw [fillFrom_append (by simp only; omega), List.length_cons]
        exact ⟨_, Nat.le_refl _⟩
      · exact ih _ (by omega)

theorem fillFrom_length_le {capacity : Nat} {sizeOf : Nat → Nat} (current : Bin)
    {groups : List (List Nat)} (fits : ∀ group ∈ groups, (group.map sizeOf).sum ≤ capacity) :
    (fillFrom capacity sizeOf current groups.flatten).length ≤ groups.length + 1 := by
  induction groups generalizing current with
  | nil => exact Nat.le_refl _
  | cons group groups ih =>
      obtain ⟨next, opened⟩ :=
        fillFrom_append_length current (fits group List.mem_cons_self) groups.flatten
      have others := ih next fun other member => fits other (List.mem_cons_of_mem _ member)
      rw [List.flatten_cons, List.length_cons]
      omega

/-- If the items come in groups that fit into one bin each, no more bins are filled than there are
groups. -/
theorem pack_length_le {capacity : Nat} {sizeOf : Nat → Nat} {groups : List (List Nat)}
    (fits : ∀ group ∈ groups, (group.map sizeOf).sum ≤ capacity) :
    (pack capacity sizeOf groups.flatten).length ≤ groups.length := by
  induction groups with
  | nil => exact Nat.le_refl _
  | cons group groups ih =>
      have others := fun other member => fits other (List.mem_cons_of_mem group member)
      cases group with
      | nil => exact (ih others).trans (Nat.le_succ _)
      | cons item items =>
          have first := fits (item :: items) List.mem_cons_self
          rw [List.map_cons, List.sum_cons] at first
          rw [List.flatten_cons, List.cons_append, pack, fillFrom_append first]
          exact fillFrom_length_le _ others

/-! Next fit -/

/-- The first item of the next bin does not fit into this one. -/
def ClosedBefore (capacity : Nat) (sizeOf : Nat → Nat) (bin next : Bin) : Prop :=
  ∀ first ∈ next.items.head?, capacity < bin.size + sizeOf first

/-- Bins that hold some items in their order, each of them closed only before an item that does not
fit into it. -/
structure NextFit (capacity : Nat) (sizeOf : Nat → Nat) (items : List Nat) (bins : List Bin) :
    Prop where
  items_eq : bins.flatMap Bin.items = items
  nonempty : ∀ bin ∈ bins, bin.items ≠ []
  size_eq : ∀ bin ∈ bins, bin.size = (bin.items.map sizeOf).sum
  size_le : ∀ bin ∈ bins, bin.size ≤ capacity
  closed : bins.IsChain (ClosedBefore capacity sizeOf)

/-- The first bin goes on from the current one. -/
theorem exists_fillFrom_eq_cons (capacity : Nat) (sizeOf : Nat → Nat) (current : Bin)
    (items : List Nat) :
    ∃ bin bins, fillFrom capacity sizeOf current items = bin :: bins ∧
      current.items.reverse <+: bin.items := by
  induction items generalizing current with
  | nil => exact ⟨_, _, rfl, List.prefix_refl _⟩
  | cons item rest ih =>
      rw [fillFrom]
      split
      · exact ⟨_, _, rfl, List.prefix_refl _⟩
      · obtain ⟨bin, bins, filled, starts⟩ := ih ⟨item :: current.items, current.size + sizeOf item⟩
        rw [List.reverse_cons] at starts
        exact ⟨bin, bins, filled, (List.prefix_append _ _).trans starts⟩

theorem fillFrom_closed (capacity : Nat) (sizeOf : Nat → Nat) (current : Bin)
    (items : List Nat) :
    (fillFrom capacity sizeOf current items).IsChain (ClosedBefore capacity sizeOf) := by
  induction items generalizing current with
  | nil => exact List.isChain_singleton _
  | cons item rest ih =>
      rw [fillFrom]
      split
      · rename_i full
        apply (ih _).cons
        obtain ⟨bin, bins, filled, starts⟩ :=
          exists_fillFrom_eq_cons capacity sizeOf ⟨[item], sizeOf item⟩ rest
        obtain ⟨others, whole⟩ := starts
        rw [filled]
        rintro _ ⟨⟩ first isFirst
        rw [← whole] at isFirst
        cases isFirst
        exact full
      · exact ih _

theorem pack_closed (capacity : Nat) (sizeOf : Nat → Nat) (items : List Nat) :
    (pack capacity sizeOf items).IsChain (ClosedBefore capacity sizeOf) := by
  cases items with
  | nil => exact List.isChain_nil
  | cons item rest => exact fillFrom_closed capacity sizeOf _ rest

theorem pack_nextFit {capacity : Nat} {sizeOf : Nat → Nat} {items : List Nat}
    (each : ∀ item ∈ items, sizeOf item ≤ capacity) :
    NextFit capacity sizeOf items (pack capacity sizeOf items) where
  items_eq := pack_items capacity sizeOf items
  nonempty := fun _ member => pack_nonempty member
  size_eq := fun _ member => pack_size member
  size_le := fun _ member => pack_size_le each member
  closed := pack_closed capacity sizeOf items

/-- A bin that the item after it does not fit into is packed by itself. -/
theorem pack_append {capacity : Nat} {sizeOf : Nat → Nat} {bin : Bin} {rest : List Nat}
    (nonempty : bin.items ≠ []) (exact : bin.size = (bin.items.map sizeOf).sum)
    (within : bin.size ≤ capacity)
    (closed : ∀ first ∈ rest.head?, capacity < bin.size + sizeOf first) :
    pack capacity sizeOf (bin.items ++ rest) = bin :: pack capacity sizeOf rest := by
  obtain ⟨items, size⟩ := bin
  obtain ⟨item, others, rfl⟩ := List.exists_cons_of_ne_nil nonempty
  rw [List.map_cons, List.sum_cons] at exact
  subst exact
  rw [List.cons_append, pack, fillFrom_append within]
  cases rest with
  | nil => simp [fillFrom, pack]
  | cons first more =>
      rw [fillFrom, if_pos (closed first rfl), pack]
      simp

theorem NextFit.tail {capacity : Nat} {sizeOf : Nat → Nat} {items : List Nat} {bin : Bin}
    {bins : List Bin} (fits : NextFit capacity sizeOf items (bin :: bins)) :
    NextFit capacity sizeOf (bins.flatMap Bin.items) bins where
  items_eq := rfl
  nonempty := fun other member => fits.nonempty other (List.mem_cons_of_mem _ member)
  size_eq := fun other member => fits.size_eq other (List.mem_cons_of_mem _ member)
  size_le := fun other member => fits.size_le other (List.mem_cons_of_mem _ member)
  closed := fits.closed.tail

theorem NextFit.closed_head {capacity : Nat} {sizeOf : Nat → Nat} {items : List Nat} {bin : Bin}
    {bins : List Bin} (fits : NextFit capacity sizeOf items (bin :: bins)) :
    ∀ first ∈ (bins.flatMap Bin.items).head?, capacity < bin.size + sizeOf first := by
  cases bins with
  | nil => exact nofun
  | cons next others =>
      intro first isFirst
      have has := fits.nonempty next (by simp)
      rw [List.flatMap_cons, List.head?_append_of_ne_nil _ has] at isFirst
      exact fits.closed.rel_head? rfl first isFirst

/-- There is one way to pack items next fit. -/
theorem NextFit.unique {capacity : Nat} {sizeOf : Nat → Nat} {items : List Nat}
    {bins : List Bin} (fits : NextFit capacity sizeOf items bins) :
    bins = pack capacity sizeOf items := by
  induction bins generalizing items with
  | nil => exact fits.items_eq ▸ rfl
  | cons bin bins ih =>
      have rest := ih fits.tail
      have first := List.mem_cons_self (a := bin) (l := bins)
      rw [← fits.items_eq, List.flatMap_cons, pack_append (fits.nonempty bin first)
        (fits.size_eq bin first) (fits.size_le bin first) fits.closed_head, ← rest]

/-- Two bins that follow each other hold more than fits into one. -/
theorem NextFit.overfull {capacity : Nat} {sizeOf : Nat → Nat} {items : List Nat}
    {bins : List Bin} (fits : NextFit capacity sizeOf items bins) :
    bins.IsChain fun bin next => capacity < bin.size + next.size := by
  apply fits.closed.imp_of_mem_imp
  intro bin next _ member closed
  obtain ⟨first, others, items⟩ := List.exists_cons_of_ne_nil (fits.nonempty next member)
  have size := fits.size_eq next member
  rw [items, List.map_cons, List.sum_cons] at size
  have more := closed first (by simp [items])
  omega

end MergeCost.Bin
