import MergeCost.Proofs.Index.Reachable
import MergeCost.Proofs.Rounding
import Mathlib.Algebra.BigOperators.Intervals

/-!
The levels of B+trees. A tree of some height holds as many entries as a power of its fanout, so that
the height of a tree is the least one whose power is enough; a level has as many nodes as its power
of the fanout fits into the entries, the last time perhaps in part.
-/

namespace MergeCost

open Sim

namespace BTree

/-! The climb from the leaves to the root -/

/-- The number of nodes on each level from a level of `nodes` nodes up to the root. -/
def levelsFrom (fanout : Nat) (branching : 2 ≤ fanout) (nodes : Nat) : List Nat :=
  if many : 1 < nodes then
    have := unitsFor_lt many branching
    nodes :: levelsFrom fanout branching (unitsFor nodes fanout)
  else [nodes]
termination_by nodes

section Levels

variable {fanout : Nat} (branching : 2 ≤ fanout)

theorem levelsFrom_of_many {nodes : Nat} (many : 1 < nodes) :
    levelsFrom fanout branching nodes =
      nodes :: levelsFrom fanout branching (unitsFor nodes fanout) := by
  rw [levelsFrom, dif_pos many]

theorem levelsFrom_of_few {nodes : Nat} (few : ¬1 < nodes) :
    levelsFrom fanout branching nodes = [nodes] := by
  rw [levelsFrom, dif_neg few]

theorem length_levelsFrom_pos (nodes : Nat) : 0 < (levelsFrom fanout branching nodes).length := by
  by_cases many : 1 < nodes
  · rw [levelsFrom_of_many branching many]
    exact Nat.succ_pos _
  · rw [levelsFrom_of_few branching many]
    exact Nat.one_pos

theorem length_levelsFrom_le_iff (nodes height : Nat) :
    (levelsFrom fanout branching nodes).length ≤ height + 1 ↔ nodes ≤ fanout ^ height := by
  have positive : 0 < fanout := by omega
  induction nodes using levelsFrom.induct fanout branching generalizing height with
  | case1 nodes many _ ih =>
      rw [levelsFrom_of_many branching many, List.length_cons, Nat.succ_le_succ_iff]
      cases height with
      | zero =>
          have above := length_levelsFrom_pos branching (unitsFor nodes fanout)
          rw [Nat.pow_zero]
          omega
      | succ height =>
          rw [Nat.pow_succ, ← unitsFor_le_iff positive]
          exact ih height
  | case2 nodes few =>
      have single : nodes ≤ fanout ^ height := by
        have := Nat.pow_pos (n := height) positive
        omega
      rw [levelsFrom_of_few branching few, List.length_singleton]
      exact iff_of_true (Nat.le_add_left 1 height) single

theorem levelsFrom_eq (nodes : Nat) :
    levelsFrom fanout branching nodes =
      (List.range (levelsFrom fanout branching nodes).length).map fun level =>
        unitsFor nodes (fanout ^ level) := by
  have positive : 0 < fanout := by omega
  induction nodes using levelsFrom.induct fanout branching with
  | case1 nodes many _ ih =>
      rw [levelsFrom_of_many branching many, List.length_cons, List.range_succ_eq_map,
        List.map_cons, List.map_map, Nat.pow_zero, unitsFor_one]
      congr 1
      rw [ih, List.length_map, List.length_range]
      apply List.map_congr_left
      intro level _
      exact unitsFor_unitsFor nodes positive (Nat.pow_pos positive)
  | case2 nodes few =>
      rw [levelsFrom_of_few branching few, List.length_singleton, List.range_one,
        List.map_singleton, Nat.pow_zero, unitsFor_one]

theorem climbHeight_of_many {nodes : Nat} (many : 1 < nodes) (height : Nat) :
    climbHeight fanout branching nodes height =
      climbHeight fanout branching (unitsFor nodes fanout) (height + 1) := by
  rw [climbHeight, dif_pos many]

theorem climbHeight_of_few {nodes : Nat} (few : ¬1 < nodes) (height : Nat) :
    climbHeight fanout branching nodes height = height := by
  rw [climbHeight, dif_neg few]

theorem climbNodes_of_many {level : Nat} (many : 1 < level) (total : Nat) :
    climbNodes fanout branching level total =
      climbNodes fanout branching (unitsFor level fanout) (total + unitsFor level fanout) := by
  rw [climbNodes, dif_pos many]

theorem climbNodes_of_few {level : Nat} (few : ¬1 < level) (total : Nat) :
    climbNodes fanout branching level total = total := by
  rw [climbNodes, dif_neg few]

/-- The height counts the levels that are climbed. -/
theorem climbHeight_add_one (nodes height : Nat) :
    climbHeight fanout branching nodes height + 1 =
      height + (levelsFrom fanout branching nodes).length := by
  induction nodes using levelsFrom.induct fanout branching generalizing height with
  | case1 nodes many _ ih =>
      rw [climbHeight_of_many branching many, ih, levelsFrom_of_many branching many,
        List.length_cons, Nat.add_assoc, Nat.add_comm 1]
  | case2 nodes few =>
      rw [climbHeight_of_few branching few, levelsFrom_of_few branching few, List.length_singleton]

/-- The nodes are added up over the same levels; those of the first one are there from the start. -/
theorem climbNodes_add (level total : Nat) :
    climbNodes fanout branching level total + level =
      total + (levelsFrom fanout branching level).sum := by
  induction level using levelsFrom.induct fanout branching generalizing total with
  | case1 level many _ ih =>
      have rest := ih (total + unitsFor level fanout)
      rw [climbNodes_of_many branching many, levelsFrom_of_many branching many, List.sum_cons]
      omega
  | case2 level few =>
      rw [climbNodes_of_few branching few, levelsFrom_of_few branching few, List.sum_singleton]

theorem le_climbNodes (level total : Nat) : total ≤ climbNodes fanout branching level total := by
  induction level using levelsFrom.induct fanout branching generalizing total with
  | case1 level many _ ih =>
      rw [climbNodes_of_many branching many]
      exact (Nat.le_add_right ..).trans (ih _)
  | case2 level few => rw [climbNodes_of_few branching few]

theorem climbNodesInWords_eq (level : Nat) {total : Nat} (fits : Fits total) :
    climbNodesInWords fanout branching level total =
      Word.hold (climbNodes fanout branching level total) := by
  induction level using levelsFrom.induct fanout branching generalizing total with
  | case1 level many _ ih =>
      rw [climbNodesInWords, dif_pos many, climbNodes_of_many branching many]
      by_cases next : Fits (total + unitsFor level fanout)
      · rw [Word.add, Word.hold_bind next]
        exact ih next
      · have large : ¬Fits (climbNodes fanout branching (unitsFor level fanout)
            (total + unitsFor level fanout)) :=
          fun whole => next (Word.fits_of_le (le_climbNodes branching ..) whole)
        rw [Word.add, Word.hold_of_not_fits next, Word.hold_of_not_fits large]
        rfl
  | case2 level few =>
      rw [climbNodesInWords, dif_neg few, climbNodes_of_few branching few, Word.hold_of_fits fits]

theorem climbNodesInWords_cases (level total : Nat) :
    climbNodesInWords fanout branching level total =
        .ok (climbNodes fanout branching level total) ∨
      climbNodesInWords fanout branching level total = .error .overflow := by
  by_cases fits : Fits total
  · rw [climbNodesInWords_eq branching level fits]
    exact Word.hold_cases _
  by_cases many : 1 < level
  · have large : ¬Fits (total + unitsFor level fanout) :=
      fun whole => fits (Word.fits_of_le (Nat.le_add_right ..) whole)
    rw [climbNodesInWords, dif_pos many, Word.add, Word.hold_of_not_fits large]
    exact .inr rfl
  · rw [climbNodesInWords, dif_neg many, climbNodes_of_few branching many]
    exact .inl rfl

end Levels

variable {τ : Type} (tree : BTree τ)

/-- The number of nodes on each level of a tree of so many entries, leaves first. -/
def levels (entries : Nat) : List Nat :=
  levelsFrom tree.fanout tree.two_le_fanout (unitsFor entries tree.fanout)

theorem heightFor_eq_length {entries : Nat} (some : 1 ≤ entries) :
    tree.heightFor entries = (tree.levels entries).length := by
  have climbed := climbHeight_add_one tree.two_le_fanout (unitsFor entries tree.fanout) 1
  rw [heightFor, if_neg (Nat.one_le_iff_ne_zero.mp some), levels]
  omega

theorem nodesFor_eq_sum_levels (entries : Nat) :
    tree.nodesFor entries = (tree.levels entries).sum := by
  have climbed := climbNodes_add tree.two_le_fanout (unitsFor entries tree.fanout)
    (unitsFor entries tree.fanout)
  rw [nodesFor, levels]
  omega

theorem fanout_pos : 0 < tree.fanout := Nat.lt_of_lt_of_le Nat.two_pos tree.two_le_fanout

/-- The nodes that a climb from the leaves has come to after so many passes, each of which goes from
the nodes of a level to those of the level above it. -/
def climb (entries passes : Nat) : Nat :=
  (unitsFor · tree.fanout)^[passes] (unitsFor entries tree.fanout)

theorem climb_eq (entries passes : Nat) :
    tree.climb entries passes = unitsFor entries (tree.fanout ^ (passes + 1)) := by
  have positive := tree.fanout_pos
  induction passes with
  | zero => rw [climb, Function.iterate_zero_apply, Nat.zero_add, Nat.pow_one]
  | succ passes ih =>
      rw [climb, Function.iterate_succ_apply', ← climb, ih,
        unitsFor_unitsFor entries (Nat.pow_pos positive) positive, Nat.pow_succ' (n := passes + 1)]

/-! Heights -/

@[simp] theorem heightFor_zero : tree.heightFor 0 = 0 := rfl

theorem one_le_heightFor {entries : Nat} (some : 1 ≤ entries) : 1 ≤ tree.heightFor entries := by
  rw [tree.heightFor_eq_length some]
  exact length_levelsFrom_pos tree.two_le_fanout _

theorem heightFor_le_iff {entries height : Nat} (some : 1 ≤ entries) (leaves : 1 ≤ height) :
    tree.heightFor entries ≤ height ↔ entries ≤ tree.fanout ^ height := by
  obtain ⟨above, rfl⟩ := Nat.exists_eq_add_of_le' leaves
  rw [tree.heightFor_eq_length some, levels, length_levelsFrom_le_iff, unitsFor_le_iff
    tree.fanout_pos, Nat.pow_succ]

theorem le_pow_heightFor {entries : Nat} (some : 1 ≤ entries) :
    entries ≤ tree.fanout ^ tree.heightFor entries :=
  (tree.heightFor_le_iff some (tree.one_le_heightFor some)).mp (Nat.le_refl _)

theorem heightFor_mono : Monotone tree.heightFor := by
  intro fewer more le
  rcases Nat.eq_zero_or_pos fewer with rfl | some
  · exact Nat.zero_le _
  · have someMore : 1 ≤ more := Nat.le_trans some le
    exact (tree.heightFor_le_iff some (tree.one_le_heightFor someMore)).mpr
      (le.trans (tree.le_pow_heightFor someMore))

theorem isLeast_heightFor {entries : Nat} (some : 1 ≤ entries) :
    IsLeast { height | 1 ≤ height ∧ entries ≤ tree.fanout ^ height } (tree.heightFor entries) := by
  constructor
  · exact ⟨tree.one_le_heightFor some, tree.le_pow_heightFor some⟩
  · intro height enough
    exact (tree.heightFor_le_iff some enough.1).mpr enough.2

theorem one_lt_climb_iff {entries passes : Nat} (some : 1 ≤ entries) :
    1 < tree.climb entries passes ↔ passes + 1 < tree.heightFor entries := by
  rw [climb_eq, ← Nat.not_le, ← Nat.not_le, unitsFor_le_iff (Nat.pow_pos tree.fanout_pos),
    Nat.one_mul, tree.heightFor_le_iff some (Nat.le_add_left 1 passes)]

/-- The climb ends at the root. -/
theorem climb_root {entries : Nat} (some : 1 ≤ entries) :
    tree.climb entries (tree.heightFor entries - 1) = 1 := by
  have height := tree.one_le_heightFor some
  have last : ¬1 < tree.climb entries (tree.heightFor entries - 1) := by
    rw [tree.one_lt_climb_iff some]
    omega
  have present : ¬tree.climb entries (tree.heightFor entries - 1) ≤ 0 := by
    rw [climb_eq, unitsFor_le_iff (Nat.pow_pos tree.fanout_pos)]
    omega
  omega

/-! Nodes -/

theorem nodesFor_eq_sum {entries : Nat} (some : 1 ≤ entries) :
    tree.nodesFor entries =
      ∑ level ∈ Finset.Icc 1 (tree.heightFor entries), entries ⌈/⌉ tree.fanout ^ level := by
  have each (level : Nat) : unitsFor (unitsFor entries tree.fanout) (tree.fanout ^ level) =
      entries ⌈/⌉ tree.fanout ^ (level + 1) := by
    rw [unitsFor_unitsFor entries tree.fanout_pos (Nat.pow_pos tree.fanout_pos), ← Nat.pow_succ,
      unitsFor_eq_ceilDiv]
  rw [nodesFor_eq_sum_levels, tree.heightFor_eq_length some, levels, levelsFrom_eq]
  simp only [each, List.length_map, List.length_range]
  rw [← List.sum_toFinset _ List.nodup_range, List.toFinset_range, Finset.range_eq_Ico,
    Finset.sum_Ico_add' (fun level => entries ⌈/⌉ tree.fanout ^ level), Nat.zero_add,
    Finset.Ico_add_one_right_eq_Icc]

theorem nodesForInWords_eq {entries : Nat} (fits : Fits entries) :
    tree.nodesForInWords entries = Word.hold (tree.nodesFor entries) := by
  refine climbNodesInWords_eq tree.two_le_fanout _ (Word.fits_of_le ?_ fits)
  exact (unitsFor_le_iff tree.fanout_pos).mpr (Nat.le_mul_of_pos_right _ tree.fanout_pos)

variable [Scalar τ]

theorem outcome_bulkload {entries : Nat} (some : 1 ≤ entries) (machine : Machine τ) :
    let loaded := machine.access .write (tree.nodesFor entries * tree.nodeSize)
    outcome (bulkload entries) ⟨tree, machine⟩ = .ok (.ok loaded.1,
      ⟨{ tree with
        entries := tree.entries + entries
        ledger := tree.ledger.record (.request .bulkload) loaded.1 1 }, loaded.2⟩) := by
  simp only [bulkload, if_neg (Nat.one_le_iff_ne_zero.mp some), outcome_bind, outcome_store,
    after_ok, outcome_access, setEntries, outcome_update, record, outcome_pure]

/-- A bulkload in words breaks off just where the bytes of all nodes, what the disk has counted by
then or the entries of the tree do not fit. -/
theorem bulkloadInWords_endsWithin {entries : Nat} (some : 1 ≤ entries) (fits : Fits entries)
    (someNode : 0 < tree.nodeSize) (machine : Machine τ) :
    let bytes := tree.nodesFor entries * tree.nodeSize
    EndsWithin
      (Fits bytes ∧ (machine.access .write bytes).2.disk.Fits ∧ Fits (tree.entries + entries))
      (outcome (bulkloadInWords entries) ⟨tree, machine⟩)
      (outcome (bulkload entries) ⟨tree, machine⟩) := by
  intro bytes
  have taken : (do Word.mul (← tree.nodesForInWords entries) tree.nodeSize) = Word.hold bytes := by
    rw [tree.nodesForInWords_eq fits]
    exact Word.hold_bind_mul _ someNode
  have written : outcome (inWords (access .write bytes)) ⟨tree, machine⟩ =
      if (machine.access .write bytes).2.disk.Fits then
        .ok (.ok (machine.access .write bytes).1, ⟨tree, (machine.access .write bytes).2⟩)
      else .error .overflow := outcome_inWords (outcome_access .write bytes ⟨tree, machine⟩)
  simp only [bulkloadInWords, if_neg (Nat.one_le_iff_ne_zero.mp some), outcome_bind,
    outcome_store, after_ok, taken, tree.outcome_bulkload some machine]
  by_cases room : Fits bytes
  case neg =>
    rw [Word.hold_of_not_fits room]
    exact .of_breaks (fun holds => room holds.1) rfl
  rw [Word.hold_of_fits room, outcome_orCrash_ok, after_ok, outcome_bind, written]
  by_cases counted : (machine.access .write bytes).2.disk.Fits
  case neg =>
    rw [if_neg counted]
    exact .of_breaks (fun holds => counted holds.2.1) rfl
  rw [if_pos counted, after_ok, outcome_bind, Word.add]
  by_cases whole : Fits (tree.entries + entries)
  case neg =>
    rw [Word.hold_of_not_fits whole]
    exact .of_breaks (fun holds => whole holds.2.2) rfl
  rw [Word.hold_of_fits whole]
  exact .of_ends ⟨room, counted, whole⟩ rfl

/-- The climb from the leaves of a tree ends at a single root, and the height is the number of
levels on the way. A tree of some height has room for a power of its fanout, so that its height is
the least one that is enough, and never falls when entries are added. The nodes are those of each
level up to the height, and a bulkload is one write of all of them, unless it counts more than fits
into words. -/
theorem height_and_nodes (machine : Machine τ) :
    tree.heightFor 0 = 0 ∧
    Monotone tree.heightFor ∧
    ∀ entries, 1 ≤ entries →
      (∀ passes, 1 < tree.climb entries passes ↔ passes + 1 < tree.heightFor entries) ∧
      tree.climb entries (tree.heightFor entries - 1) = 1 ∧
      (∀ height, 1 ≤ height →
        (tree.heightFor entries ≤ height ↔ entries ≤ tree.fanout ^ height)) ∧
      IsLeast { height | 1 ≤ height ∧ entries ≤ tree.fanout ^ height } (tree.heightFor entries) ∧
      let nodes := ∑ level ∈ Finset.Icc 1 (tree.heightFor entries), entries ⌈/⌉ tree.fanout ^ level
      let bytes := nodes * tree.nodeSize
      let loaded := machine.access .write bytes
      tree.nodesFor entries = nodes ∧
      (Fits entries → 0 < tree.nodeSize → EndsWithin
        (Fits bytes ∧ loaded.2.disk.Fits ∧ Fits (tree.entries + entries))
        (outcome (bulkloadInWords entries) ⟨tree, machine⟩)
        (.ok (.ok loaded.1,
          ⟨{ tree with
            entries := tree.entries + entries
            ledger := tree.ledger.record (.request .bulkload) loaded.1 1 }, loaded.2⟩))) := by
  constructor
  · exact tree.heightFor_zero
  constructor
  · exact tree.heightFor_mono
  intro entries some
  have nodes := tree.nodesFor_eq_sum some
  refine ⟨fun _ => tree.one_lt_climb_iff some, tree.climb_root some,
    fun _ leaves => tree.heightFor_le_iff some leaves, tree.isLeast_heightFor some, nodes, ?_⟩
  intro fits someNode
  have loaded := tree.bulkloadInWords_endsWithin some fits someNode machine
  rw [tree.outcome_bulkload some machine, nodes] at loaded
  exact loaded

/-- Nodes of four slots, just full on two levels and with one entry more. -/
theorem height_and_nodes_of_seventeen :
    let tree : BTree Rat := ⟨1, 1, 8, 0, .empty⟩
    let machine : Machine Rat := .create (.create (.pcm ⟨⟨"PCM", 64, 1, 2⟩, 0⟩))
    tree.heightFor 16 = 2 ∧ tree.heightFor 17 = 3 ∧ tree.nodesFor 17 = 8 ∧ ∃ after,
      outcome (bulkloadInWords 17) ⟨tree, machine⟩ =
        .ok (.ok (machine.access .write 64).1, after) := by
  intro tree machine
  obtain ⟨_, _, bounds⟩ := tree.height_and_nodes machine
  obtain ⟨_, _, full, _⟩ := bounds 16 (by decide)
  obtain ⟨_, _, more, _, nodes, loaded⟩ := bounds 17 (by decide)
  have two : tree.heightFor 16 = 2 := by
    have least : ¬tree.heightFor 16 ≤ 1 := (full 1 (by decide)).not.mpr (by decide)
    have enough : tree.heightFor 16 ≤ 2 := (full 2 (by decide)).mpr (by decide)
    omega
  have three : tree.heightFor 17 = 3 := by
    have least : ¬tree.heightFor 17 ≤ 2 := (more 2 (by decide)).not.mpr (by decide)
    have enough : tree.heightFor 17 ≤ 3 := (more 3 (by decide)).mpr (by decide)
    omega
  have eight : ∑ level ∈ Finset.Icc 1 3, 17 ⌈/⌉ tree.fanout ^ level = 8 := by decide
  rw [three, eight] at nodes loaded
  have ended := (loaded (by decide) (by decide)).ends ⟨by decide, by decide, by decide⟩
  exact ⟨two, three, nodes, _, ended⟩

end BTree

end MergeCost
