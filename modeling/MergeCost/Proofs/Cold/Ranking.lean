import MergeCost.Proofs.Cold.Grouping

/-!
Which blocks a pass takes. Blocks of low usage are ranked by their usage, in the total order of the
numbers that measure it, and those of one usage by position. There is just one such ranking, and a
pass takes a first part of it.
-/

namespace MergeCost

/-- Numbers that are totally ordered by what precedes what. -/
class Scalar.Ordered (τ : Type) [Scalar τ] : Prop where
  precedes_trans : ∀ first second third : τ,
    precedes first second → precedes second third → precedes first third
  precedes_total : ∀ first second : τ, precedes first second || precedes second first

instance : Scalar.Ordered Float where
  precedes_trans first second third left right := by
    simp only [Scalar.precedes, decide_eq_true_eq] at left right ⊢
    exact Nat.le_trans left right
  precedes_total first second := by
    simp only [Scalar.precedes, Bool.or_eq_true, decide_eq_true_eq]
    exact Nat.le_total _ _

instance : Scalar.Ordered Rat where
  precedes_trans first second third left right := by
    simp only [Scalar.precedes, decide_eq_true_eq] at left right ⊢
    exact Rat.le_trans left right
  precedes_total first second := by
    simp only [Scalar.precedes, Bool.or_eq_true, decide_eq_true_eq]
    exact Rat.le_total

/-- What a sort by merging does not tell apart keeps the order that it had. -/
theorem pairwise_mergeSort_stable {α : Type} {le : α → α → Bool} {before : α → α → Prop}
    (trans : ∀ first second third, le first second → le second third → le first third)
    (total : ∀ first second, le first second || le second first) {items : List α}
    (ordered : items.Pairwise before) :
    (items.mergeSort le).Pairwise fun left right => le right left → before left right := by
  induction ordered with
  | nil => simp
  | @cons first rest ahead _ ih =>
      obtain ⟨front, back, whole, without, less⟩ := List.mergeSort_cons trans total first rest
      rw [without, List.pairwise_append] at ih
      obtain ⟨frontOrdered, backOrdered, across⟩ := ih
      rw [whole, List.pairwise_append, List.pairwise_cons]
      refine ⟨frontOrdered, ⟨fun other inside _ => ?_, backOrdered⟩, ?_⟩
      · have member : other ∈ rest.mergeSort le := without ▸ List.mem_append_right front inside
        exact ahead other (List.mem_mergeSort.mp member)
      · intro left inFront right member tied
        rcases List.mem_cons.mp member with rfl | inBack
        · -- What goes in front of the first item is truly less.
          exact absurd tied (by simpa using less left inFront)
        · exact across left inFront right inBack tied

namespace GroupedStore

variable {τ : Type} [Scalar τ] {store : GroupedStore τ}

/-- A block outranks another one if it is of less usage, or of the same and at an earlier
position. -/
def Outranks (τ : Type) [Scalar τ] (left right : EraseBlock × Nat) : Prop :=
  Scalar.precedes (usage left.1 : τ) (usage right.1) ∧
    (Scalar.precedes (usage right.1 : τ) (usage left.1) → left.2 < right.2)

theorem Outranks.asymm {left right : EraseBlock × Nat} (before : Outranks τ left right) :
    ¬ Outranks τ right left := by
  intro behind
  exact Nat.lt_asymm (before.2 behind.1) (behind.2 before.1)

/-- A list of the blocks of low usage with their positions, ranked. -/
structure Ranks (store : GroupedStore τ) (ranking : List (EraseBlock × Nat)) : Prop where
  mem_iff : ∀ block position, (block, position) ∈ ranking ↔
    store.blocks[position]? = some block ∧
      Scalar.lt (usage block : τ) store.policy.usageThreshold
  ordered : ranking.Pairwise (Outranks τ)

theorem Ranks.nodup {ranking : List (EraseBlock × Nat)} (ranks : store.Ranks ranking) :
    ranking.Nodup := by
  apply ranks.ordered.imp
  rintro left right before rfl
  exact before.asymm before

theorem Ranks.unique {left right : List (EraseBlock × Nat)} (first : store.Ranks left)
    (second : store.Ranks right) : left = right := by
  have same : left.Perm right := by
    refine (List.perm_ext_iff_of_nodup first.nodup second.nodup).mpr ?_
    rintro ⟨block, position⟩
    rw [first.mem_iff, second.mem_iff]
  refine same.eq_of_pairwise ?_ first.ordered second.ordered
  intro one other _ _ before behind
  exact absurd behind before.asymm

variable [Scalar.Ordered τ]

/-- The candidates of a pass are ranked. -/
theorem ranks_candidates (store : GroupedStore τ) : store.Ranks store.candidates := by
  have trans (first second third : EraseBlock × Nat) :=
    Scalar.Ordered.precedes_trans (usage first.1 : τ) (usage second.1) (usage third.1)
  have total (first second : EraseBlock × Nat) :=
    Scalar.Ordered.precedes_total (usage first.1 : τ) (usage second.1)
  constructor
  case mem_iff =>
    intro block position
    rw [candidates, List.mem_mergeSort, List.mem_filter, List.mem_zipIdx_iff_getElem?]
  case ordered =>
    have positions : store.blocks.zipIdx.Pairwise fun left right => left.2 < right.2 := by
      rw [← List.pairwise_map, List.zipIdx_map_snd]
      exact List.pairwise_lt_range'
    exact (List.pairwise_mergeSort trans total _).and
      (pairwise_mergeSort_stable trans total (positions.filter _))

theorem ranks_iff (store : GroupedStore τ) (ranking : List (EraseBlock × Nat)) :
    store.Ranks ranking ↔ ranking = store.candidates := by
  constructor
  · intro ranks
    exact ranks.unique store.ranks_candidates
  · rintro rfl
    exact store.ranks_candidates

end GroupedStore

end MergeCost
