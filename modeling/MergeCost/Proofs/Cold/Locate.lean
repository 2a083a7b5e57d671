import MergeCost.Proofs.Cold.Listing

/-!
What a request locates. A range that there are enough entries for is one stretch of partitions,
whole ones and a part of the last one. Either kind of lookup locates exactly as many entries as were
asked for, in different partitions that really have them.
-/

namespace MergeCost

namespace PartitionStore

variable {store : PartitionStore}

/-! Following a range -/

def ahead (store : PartitionStore) (cursor visits : Nat) : Nat :=
  ∑ turn ∈ Finset.range visits, store.remaining ((cursor + turn) % store.partitions.size)

theorem ahead_succ {cursor : Nat} (inside : cursor < store.partitions.size) (visits : Nat) :
    store.ahead cursor (visits + 1) =
      store.remaining cursor + store.ahead ((cursor + 1) % store.partitions.size) visits := by
  rw [ahead, Finset.sum_range_succ', Nat.add_zero, Nat.mod_eq_of_lt inside, Nat.add_comm]
  simp only [ahead, next_turn]

/-- A whole round meets all entries. -/
theorem ahead_size {cursor : Nat} (inside : cursor < store.partitions.size) :
    store.ahead cursor store.partitions.size = store.entries := by
  rw [entries_eq_sum]
  apply Finset.sum_nbij fun turn => (cursor + turn) % store.partitions.size
  · intro turn _
    exact Finset.mem_range.mpr (Nat.mod_lt _ (by omega))
  · intro first firstTurn second secondTurn same
    exact turn_unique (by simpa using firstTurn) (by simpa using secondTurn) same
  · intro position member
    obtain ⟨turn, before, met⟩ := exists_turn inside (by simpa using member)
    exact ⟨turn, by simpa using before, met⟩
  · intro turn _
    rfl

theorem ahead_concat (store : PartitionStore) (cursor turns : Nat) :
    store.ahead cursor (turns + 1) = store.ahead cursor turns +
      store.remaining ((cursor + turns) % store.partitions.size) :=
  Finset.sum_range_succ ..

theorem ahead_mono (store : PartitionStore) (cursor : Nat) {fewer turns : Nat}
    (le : fewer ≤ turns) : store.ahead cursor fewer ≤ store.ahead cursor turns :=
  Finset.sum_le_sum_of_subset (Finset.range_mono le)

/-- All that a list of partitions holds, without those that are empty. -/
def wholes (store : PartitionStore) (partitions : List Nat) : List Located :=
  (partitions.filter fun partition => 0 < store.remaining partition).map fun partition =>
    ⟨partition, store.remaining partition⟩

/-- All that the partitions of so many turns hold, and so much of the next one. -/
def stretch (store : PartitionStore) (start turns part : Nat) : List Located :=
  store.wholes (store.met start turns) ++
    if part = 0 then [] else [⟨(start + turns) % store.partitions.size, part⟩]

theorem wholes_cons (store : PartitionStore) (partition : Nat) (rest : List Nat) :
    store.wholes (partition :: rest) =
      (if store.remaining partition = 0 then [] else [⟨partition, store.remaining partition⟩]) ++
        store.wholes rest := by
  by_cases empty : store.remaining partition = 0
  · simp [wholes, empty]
  · simp [wholes, empty, Nat.pos_of_ne_zero empty]

theorem wholes_append (store : PartitionStore) (first second : List Nat) :
    store.wholes (first ++ second) = store.wholes first ++ store.wholes second := by
  simp [wholes]

theorem sum_wholes (store : PartitionStore) (start turns : Nat) :
    ((store.wholes (store.met start turns)).map Located.entries).sum = store.ahead start turns := by
  induction turns with
  | zero => rfl
  | succ turns ih =>
      rw [met_concat, wholes_append, List.map_append, List.sum_append, ih, ahead_concat,
        wholes_cons]
      by_cases empty : store.remaining ((start + turns) % store.partitions.size) = 0
      · simp [empty, wholes]
      · simp [empty, wholes]

/-- A range of so many entries, followed for so many visits at most. It takes whole partitions for
no more turns than it must, and then a part of one that has more than that. -/
structure Covers (store : PartitionStore) (start visits entries turns part : Nat) : Prop where
  turns_le : turns ≤ visits
  sum_eq : store.ahead start turns + part = entries
  short : ∀ fewer < turns, store.ahead start fewer < entries
  fits : part = 0 ∨
    turns < visits ∧ part < store.remaining ((start + turns) % store.partitions.size)

section

variable {start visits entries turns part : Nat}

theorem Covers.nothing (store : PartitionStore) (start visits : Nat) :
    store.Covers start visits 0 0 0 :=
  ⟨Nat.zero_le _, rfl, fun _ before => absurd before (Nat.not_lt_zero _), .inl rfl⟩

theorem Covers.pass (inside : start < store.partitions.size)
    (passes : store.remaining start ≤ entries) (positive : 0 < entries)
    (covers : store.Covers ((start + 1) % store.partitions.size) visits
      (entries - store.remaining start) turns part) :
    store.Covers start (visits + 1) entries (turns + 1) part where
  turns_le := Nat.succ_le_succ covers.turns_le
  sum_eq := by
    have rest := covers.sum_eq
    rw [ahead_succ inside]
    omega
  short := by
    intro fewer before
    cases fewer with
    | zero => exact positive
    | succ fewer =>
        have rest := covers.short fewer (by omega)
        rw [ahead_succ inside]
        omega
  fits := by
    rcases covers.fits with whole | ⟨before, less⟩
    · exact .inl whole
    · exact .inr ⟨by omega, by rwa [next_turn] at less⟩

theorem Covers.stop (inside : start < store.partitions.size)
    (stops : entries < store.remaining start) :
    store.Covers start (visits + 1) entries 0 entries where
  turns_le := Nat.zero_le _
  sum_eq := Nat.zero_add _
  short := fun _ before => absurd before (Nat.not_lt_zero _)
  fits := by
    refine .inr ⟨Nat.succ_pos _, ?_⟩
    rwa [Nat.add_zero, Nat.mod_eq_of_lt inside]

/-- A stretch that is not empty ends in a partition of which it has some entries or all. -/
theorem Covers.exists_last (covers : store.Covers start visits entries turns part)
    (positive : 0 < entries) :
    ∃ turn < visits, ∃ last, 0 < last ∧
      last ≤ store.remaining ((start + turn) % store.partitions.size) ∧
      store.stretch start turns part = store.wholes (store.met start turn) ++
        [⟨(start + turn) % store.partitions.size, last⟩] ∧
      (start + turns) % store.partitions.size =
        if last < store.remaining ((start + turn) % store.partitions.size)
        then (start + turn) % store.partitions.size
        else ((start + turn) % store.partitions.size + 1) % store.partitions.size := by
  rcases Nat.eq_zero_or_pos part with rfl | some
  · obtain ⟨turn, rfl⟩ : ∃ turn, turns = turn + 1 := by
      refine Nat.exists_eq_succ_of_ne_zero ?_
      rintro rfl
      exact absurd covers.sum_eq (Nat.ne_of_lt positive)
    have has : 0 < store.remaining ((start + turn) % store.partitions.size) := by
      have short := covers.short turn (by omega)
      have sum := covers.sum_eq
      rw [ahead_concat] at sum
      omega
    refine ⟨turn, covers.turns_le, _, has, Nat.le_refl _, ?_, ?_⟩
    · simp [stretch, met_concat, wholes, has]
    · rw [if_neg (Nat.lt_irrefl _), Nat.mod_add_mod, Nat.add_assoc]
  · obtain ⟨before, less⟩ := covers.fits.resolve_left (Nat.ne_of_gt some)
    refine ⟨turns, before, part, some, Nat.le_of_lt less, ?_, (if_pos less).symm⟩
    rw [stretch, if_neg (Nat.ne_of_gt some)]

theorem Covers.sum_stretch (covers : store.Covers start visits entries turns part) :
    ((store.stretch start turns part).map Located.entries).sum = entries := by
  rw [stretch, List.map_append, List.sum_append, sum_wholes, ← covers.sum_eq]
  split <;> simp_all

theorem partitions_wholes (store : PartitionStore) (partitions : List Nat) :
    (store.wholes partitions).map Located.partition =
      partitions.filter fun partition => 0 < store.remaining partition := by
  simp [wholes, Function.comp_def]

theorem Covers.allots (covers : store.Covers start store.partitions.size entries turns part)
    (positive : 0 < entries) : store.Allots (store.stretch start turns part) := by
  obtain ⟨turn, before, last, some, within, shape, _⟩ := covers.exists_last positive
  rw [shape]
  constructor
  case distinct =>
    rw [List.map_append, partitions_wholes]
    refine (nodup_met before start).sublist ?_
    rw [met_concat]
    exact List.filter_sublist.append (List.Sublist.refl _)
  case available =>
    intro located member
    rcases List.mem_append.mp member with whole | final
    · obtain ⟨partition, has, rfl⟩ := List.mem_map.mp whole
      exact ⟨by simpa using List.of_mem_filter has, Nat.le_refl _⟩
    · rw [List.mem_singleton.mp final]
      exact ⟨some, within⟩

theorem stretch_succ (inside : start < store.partitions.size) :
    store.stretch start (turns + 1) part =
      (if store.remaining start = 0 then [] else [⟨start, store.remaining start⟩]) ++
        store.stretch ((start + 1) % store.partitions.size) turns part := by
  rw [stretch, met_succ inside, wholes_cons, List.append_assoc, stretch, next_turn]

end

/-- The walk after the partition at its cursor has given all that it has. -/
def Walk.pass (walk : Walk) (store : PartitionStore) : Walk where
  cursor := (walk.cursor + 1) % store.partitions.size
  wanted := walk.wanted - store.remaining walk.cursor
  located :=
    if store.remaining walk.cursor = 0 then walk.located
    else ⟨walk.cursor, store.remaining walk.cursor⟩ :: walk.located

/-- The walk after the partition at its cursor has given all that is wanted. -/
def Walk.stop (walk : Walk) : Walk where
  cursor := walk.cursor
  wanted := 0
  located := ⟨walk.cursor, walk.wanted⟩ :: walk.located

section

variable {walk : Walk} {visits : Nat}

theorem Walk.step_of_le (inside : walk.cursor < store.partitions.size)
    (passes : store.remaining walk.cursor ≤ walk.wanted) :
    walk.step store = .ok (walk.pass store) := by
  have found := Array.getElem?_eq_getElem inside
  have here : store.partitions[walk.cursor].remaining = store.remaining walk.cursor :=
    (remaining_of_getElem? found).symm
  simp only [Walk.step, found, here, Nat.min_eq_left passes, if_true]
  rfl

theorem Walk.step_of_lt (inside : walk.cursor < store.partitions.size)
    (wanted : walk.wanted ≠ 0) (stops : walk.wanted < store.remaining walk.cursor) :
    walk.step store = .ok walk.stop := by
  have found := Array.getElem?_eq_getElem inside
  have here : store.partitions[walk.cursor].remaining = store.remaining walk.cursor :=
    (remaining_of_getElem? found).symm
  simp only [Walk.step, found, here, Nat.min_eq_right (Nat.le_of_lt stops),
    if_neg (Nat.ne_of_lt stops), if_neg wanted, Nat.sub_self]
  rfl

theorem Walk.run_of_wanted (done : walk.wanted = 0) (visits : Nat) :
    Walk.run store visits walk = .ok walk := by
  cases visits with
  | zero => rw [Walk.run, if_pos done]
  | succ visits => rw [Walk.run, if_pos done]

theorem Walk.run_of_step {next : Walk} (wanted : walk.wanted ≠ 0)
    (stepped : walk.step store = .ok next) (visits : Nat) :
    Walk.run store (visits + 1) walk = Walk.run store visits next := by
  rw [Walk.run, if_neg wanted, stepped]
  rfl

theorem Walk.finished_covers (inside : walk.cursor < store.partitions.size)
    (done : walk.wanted = 0) (visits : Nat) :
    store.Covers walk.cursor visits walk.wanted 0 0 ∧ Walk.run store visits walk = .ok {
      cursor := (walk.cursor + 0) % store.partitions.size
      wanted := 0
      located := (store.stretch walk.cursor 0 0).reverse ++ walk.located } := by
  refine ⟨done ▸ .nothing store walk.cursor visits, ?_⟩
  have unmoved : walk = ⟨walk.cursor, 0, walk.located⟩ := done ▸ rfl
  rw [run_of_wanted done, Nat.add_zero, Nat.mod_eq_of_lt inside]
  exact congrArg Except.ok unmoved

/-- A walk that finds enough within its visits locates one stretch from its cursor on. -/
theorem Walk.run_covers (walk : Walk) (inside : walk.cursor < store.partitions.size)
    (enough : walk.wanted ≤ store.ahead walk.cursor visits) :
    ∃ turns part, store.Covers walk.cursor visits walk.wanted turns part ∧
      Walk.run store visits walk = .ok {
        cursor := (walk.cursor + turns) % store.partitions.size
        wanted := 0
        located := (store.stretch walk.cursor turns part).reverse ++ walk.located } := by
  induction visits generalizing walk with
  | zero =>
      exact ⟨0, 0, finished_covers inside (Nat.le_zero.mp enough) 0⟩
  | succ visits ih =>
      by_cases done : walk.wanted = 0
      · exact ⟨0, 0, finished_covers inside done _⟩
      · by_cases passes : store.remaining walk.cursor ≤ walk.wanted
        · have ahead : (walk.pass store).wanted ≤
              store.ahead (walk.pass store).cursor visits := by
            rw [ahead_succ inside] at enough
            simp only [Walk.pass]
            omega
          obtain ⟨turns, part, covers, ran⟩ :=
            ih (walk.pass store) (Nat.mod_lt _ (by omega)) ahead
          refine ⟨turns + 1, part, covers.pass inside passes (Nat.pos_of_ne_zero done), ?_⟩
          rw [run_of_step done (step_of_le inside passes), ran, stretch_succ inside]
          simp only [Walk.pass, next_turn, List.reverse_append, List.append_assoc]
          split <;> simp
        · have stops := Nat.lt_of_not_le passes
          refine ⟨0, walk.wanted, .stop inside stops, ?_⟩
          rw [run_of_step done (step_of_lt inside done stops), run_of_wanted rfl]
          simp [stretch, met, wholes, done, Walk.stop, Nat.mod_eq_of_lt inside]

end

/-- A range that there are enough entries for is one stretch from the cursor on. -/
theorem locate_covers (inside : store.rangeCursor < store.partitions.size) {entries : Nat}
    (positive : 0 < entries) (enough : entries ≤ store.entries) :
    ∃ turns part, store.Covers store.rangeCursor store.partitions.size entries turns part ∧
      store.locate .range entries = .ok (store.stretch store.rangeCursor turns part,
        store.moved ((store.rangeCursor + turns) % store.partitions.size) .range) := by
  obtain ⟨turns, part, covers, ran⟩ :=
    Walk.run_covers ⟨store.rangeCursor, entries, []⟩ inside (by rwa [ahead_size inside])
  refine ⟨turns, part, covers, ?_⟩
  simp only [locate, Nat.min_eq_left enough, if_neg (Nat.ne_of_gt positive), locateRange, ran,
    List.append_nil]
  change Except.ok (_, _) = _
  rw [List.reverse_reverse]
  rfl

theorem locate_nothing {entries : Nat} (nothing : min entries store.entries = 0)
    (lookup : Lookup) : store.locate lookup entries = .ok ([], store) := by
  simp only [locate, nothing, if_true]

/-- Too much is asked for as much as there is. -/
theorem locate_min (store : PartitionStore) (lookup : Lookup) (entries : Nat) :
    store.locate lookup (min entries store.entries) = store.locate lookup entries := by
  simp only [locate, Nat.min_assoc, Nat.min_self]

/-- A request is located, as far as there are entries for it, and only moves the cursor of its own
kind of lookup. -/
theorem locate_moves (sound : store.Sound) (lookup : Lookup) (entries : Nat) :
    ∃ located cursor, store.locate lookup entries = .ok (located, store.moved cursor lookup) ∧
      (store.moved cursor lookup).Sound ∧ store.Allots located ∧
      (located.map Located.entries).sum = min entries store.entries := by
  have enough := Nat.min_le_right entries store.entries
  rcases Nat.eq_zero_or_pos (min entries store.entries) with nothing | positive
  · -- Nothing is located, and the cursor stays.
    rw [locate_nothing nothing, nothing]
    refine ⟨[], store.cursor lookup, ?_⟩
    rw [moved_cursor]
    exact ⟨rfl, sound, ⟨.nil, List.forall_mem_nil _⟩, rfl⟩
  · rw [← locate_min]
    have some := size_pos_of_entries (Nat.lt_of_lt_of_le positive enough)
    cases lookup with
    | point =>
        obtain ⟨deal, _, dealt, rest, found⟩ :=
          locate_deals (sound.pointCursor_lt some) positive enough
        refine ⟨_, _, found, sound.moved (fun _ => dealt.cursor_lt) _, dealt.allots, ?_⟩
        have sum := dealt.sum_located
        omega
    | range =>
        obtain ⟨turns, part, covers, found⟩ :=
          locate_covers (sound.rangeCursor_lt some) positive enough
        exact ⟨_, _, found, sound.moved (fun _ => Nat.mod_lt _ some) _, covers.allots positive,
          covers.sum_stretch⟩

theorem locate_allots {lookup : Lookup} {entries : Nat} {located : List Located}
    {after : PartitionStore} (sound : store.Sound)
    (found : store.locate lookup entries = .ok (located, after)) :
    store.Allots located ∧ (located.map Located.entries).sum = min entries store.entries := by
  obtain ⟨_, _, ran, _, allots, sum⟩ := locate_moves sound lookup entries
  rw [found] at ran
  cases ran
  exact ⟨allots, sum⟩

theorem locate_exists (sound : store.Sound) (lookup : Lookup) (entries : Nat) :
    ∃ located point range, store.locate lookup entries =
        .ok (located, store.withCursors point range) ∧
      (store.withCursors point range).Sound ∧ store.Allots located ∧
      (located.map Located.entries).sum = min entries store.entries := by
  obtain ⟨located, cursor, found, soundly, allots, sum⟩ := locate_moves sound lookup entries
  cases lookup with
  | point => exact ⟨located, cursor, store.rangeCursor, found, soundly, allots, sum⟩
  | range => exact ⟨located, store.pointCursor, cursor, found, soundly, allots, sum⟩

end PartitionStore

end MergeCost
