import MergeCost.Proofs.Cold.Reclaim

/-!
How selected blocks are repacked. Their live partitions come into groups in increasing order, and a
group is closed only before a partition that does not fit into it. That determines the groups, so
the order in which the blocks were selected does not matter.
-/

namespace MergeCost

namespace GroupedStore

variable {τ : Type} {store : GroupedStore τ} {selected : List (EraseBlock × Nat)}

theorem moved_perm (store : GroupedStore τ) {left right : List EraseBlock}
    (same : left.Perm right) : (store.moved left).Perm (store.moved right) :=
  (same.flatMap_right EraseBlock.partitions).filter _

theorem sorted_perm (store : GroupedStore τ) {left right : List EraseBlock}
    (same : left.Perm right) :
    (store.moved left).mergeSort (· ≤ ·) = (store.moved right).mergeSort (· ≤ ·) := by
  apply List.Perm.eq_of_pairwise' (List.pairwise_mergeSort' (· ≤ ·) _)
    (List.pairwise_mergeSort' (· ≤ ·) _)
  exact (List.mergeSort_perm _ _).trans
    ((store.moved_perm same).trans (List.mergeSort_perm _ _).symm)

theorem repack_perm (store : GroupedStore τ) {left right : List EraseBlock}
    (same : left.Perm right) : store.repack left = store.repack right :=
  congrArg (Bin.pack store.blockCapacity store.base.remainingBytes) (store.sorted_perm same)

theorem repackInWords_perm (store : GroupedStore τ) {left right : List EraseBlock}
    (same : left.Perm right) : store.repackInWords left = store.repackInWords right :=
  congrArg (Bin.packInWords store.blockCapacity store.base.remainingBytes) (store.sorted_perm same)

theorem Represented.moved_once (represented : store.Represented)
    (selects : store.Selects selected) : (store.moved (selected.map Prod.fst)).Nodup :=
  (List.nodup_append'.mp (represented.selected_once selects)).2.1.filter _

/-- What is packed are the live partitions of the selected blocks, each one once and in increasing
order. -/
theorem Represented.exists_live (represented : store.Represented)
    (selects : store.Selects selected) :
    ∃ live : List Nat, live.Pairwise (· < ·) ∧
      (∀ partition, partition ∈ live ↔
        (∃ block ∈ selected.map Prod.fst, partition ∈ block.partitions) ∧
          0 < store.base.remaining partition) ∧
      store.repack (selected.map Prod.fst) =
        Bin.pack store.blockCapacity store.base.remainingBytes live ∧
      store.repackInWords (selected.map Prod.fst) =
        Bin.packInWords store.blockCapacity store.base.remainingBytes live := by
  refine ⟨(store.moved (selected.map Prod.fst)).mergeSort (· ≤ ·), ?_, ?_, rfl, rfl⟩
  · have sorted := List.pairwise_mergeSort' (· ≤ ·) (store.moved (selected.map Prod.fst))
    have distinct := (List.mergeSort_perm _ (· ≤ ·)).nodup_iff.mpr (represented.moved_once selects)
    exact (sorted.and distinct).imp fun ⟨before, different⟩ => Nat.lt_of_le_of_ne before different
  · intro partition
    rw [List.mem_mergeSort, mem_moved, List.mem_flatMap]

variable [Scalar τ]

/-- Selected blocks are repacked next fit, also in the midst of a touch, when entries have left and
no pass has been made yet. With nothing located it is the store as it stands. In words this breaks
off only if there are more bytes to repack than fit into a word. -/
theorem repack_next_fit (reachable : (ColdTier.grouped store).ReachableInWords)
    (located : List Located) (selects : (store.settleAll located).Selects selected) :
    let settled := store.settleAll located
    let groups := settled.repack (selected.map Prod.fst)
    ∃ live : List Nat, live.Pairwise (· < ·) ∧
      (∀ partition, partition ∈ live ↔
        (∃ block ∈ selected.map Prod.fst, partition ∈ block.partitions) ∧
          0 < settled.base.remaining partition) ∧
      (settled.repackInWords (selected.map Prod.fst) = .ok groups ∨
        settled.repackInWords (selected.map Prod.fst) = .error .overflow ∧
          ¬Fits (live.map settled.base.remainingBytes).sum) ∧
      Bin.NextFit settled.blockCapacity settled.base.remainingBytes live groups ∧
      groups.IsChain (fun group next => settled.blockCapacity < group.size + next.size) ∧
      (∀ other, Bin.NextFit settled.blockCapacity settled.base.remainingBytes live other →
        other = groups) ∧
      ∀ other : List (EraseBlock × Nat), other.Perm selected →
        settled.repack (other.map Prod.fst) = groups ∧
          settled.repackInWords (other.map Prod.fst) =
            settled.repackInWords (selected.map Prod.fst) := by
  intro settled groups
  have represented : settled.Represented := Represented.settleAll reachable.valid located
  obtain ⟨live, increasing, members, packed, packedInWords⟩ := represented.exists_live selects
  have same : groups = Bin.pack settled.blockCapacity settled.base.remainingBytes live := packed
  have fits : Bin.NextFit settled.blockCapacity settled.base.remainingBytes live groups := by
    rw [same]
    exact Bin.pack_nextFit fun partition _ => represented.remainingBytes_le partition
  refine ⟨live, increasing, members, ?_, fits, fits.overfull, ?_, ?_⟩
  · rw [packedInWords, same]
    exact Bin.packInWords_cases ..
  · intro other alsoFits
    rw [same]
    exact alsoFits.unique
  · intro other reordered
    have blocks := reordered.map Prod.fst
    exact ⟨settled.repack_perm blocks, settled.repackInWords_perm blocks⟩

/-- Four blocks after a pass, one of them empty by now, come into three groups in either order. -/
theorem repack_next_fit_paired :
    let settled := paired.settleAll [⟨1, 2⟩, ⟨3, 4⟩, ⟨4, 6⟩]
    let selected : List (EraseBlock × Nat) :=
      [(⟨6, 0, 6, [4]⟩, 3), (⟨6, 2, 4, [3]⟩, 2), (⟨6, 4, 2, [1]⟩, 1), (⟨6, 6, 0, [0, 2]⟩, 0)]
    let groups := [⟨[0], 3⟩, ⟨[1], 4⟩, ⟨[2, 3], 5⟩]
    (ColdTier.grouped paired).ReachableInWords ∧ settled.Selects selected ∧
      settled.repackInWords (selected.map Prod.fst) = .ok groups ∧
      settled.repackInWords (selected.reverse.map Prod.fst) = .ok groups ∧
      Bin.NextFit 6 settled.base.remainingBytes [0, 1, 2, 3] groups := by
  intro settled selected groups
  have marked : settled = { paired with
      base := { paired.base with partitions := #[⟨6, 3⟩, ⟨6, 4⟩, ⟨6, 3⟩, ⟨6, 2⟩, ⟨6, 0⟩] }
      blocks := [⟨6, 6, 0, [0, 2]⟩, ⟨6, 4, 2, [1]⟩, ⟨6, 2, 4, [3]⟩, ⟨6, 0, 6, [4]⟩]
      staleEntries := 12 } := by cbv
  have selects : settled.Selects selected := by
    rw [marked]
    exact ⟨by simp [selected], by simp [selected]⟩
  have repacked : settled.repack (selected.map Prod.fst) = groups := by
    rw [marked]
    cbv
  obtain ⟨live, -, -, inWords, fits, -, -, unordered⟩ :=
    repack_next_fit paired_reachable [⟨1, 2⟩, ⟨3, 4⟩, ⟨4, 6⟩] selects
  have packed : Bin.NextFit 6 settled.base.remainingBytes live groups := repacked ▸ fits
  obtain rfl : [0, 1, 2, 3] = live := packed.items_eq
  have small : Fits ([0, 1, 2, 3].map settled.base.remainingBytes).sum := by
    rw [marked]
    decide
  have ended : settled.repackInWords (selected.map Prod.fst) = .ok groups := by
    rw [← repacked]
    exact inWords.resolve_right fun broken => broken.2 small
  refine ⟨paired_reachable, selects, ended, ?_, packed⟩
  rw [(unordered _ (List.reverse_perm selected)).2]
  exact ended

end GroupedStore

end MergeCost
