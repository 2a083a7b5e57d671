import MergeCost.Ledger.AccessLedger

/-!
What the runs on a ledger come to. Each way to build a run has one lemma. A run that adds to a
counter breaks off if the sum does not fit into a word, and else it is the addition.
-/

namespace MergeCost.AccessLedger

variable {τ α β : Type}

namespace Run

variable {ledger after : AccessLedger τ}

theorem outcome_bind {action : Run τ α} {next : α → Run τ β} {value : α}
    (ran : action.outcome ledger = .ok (.ok value, after)) :
    (action >>= next).outcome ledger = (next value).outcome after := by
  change Except.bind (action ledger) _ = _
  rw [show action ledger = .ok (.ok value, after) from ran]
  rfl

theorem outcome_bind_fault {action : Run τ α} {next : α → Run τ β} {fault : Fault}
    (ran : action.outcome ledger = .error fault) :
    (action >>= next).outcome ledger = .error fault := by
  change Except.bind (action ledger) _ = _
  rw [show action ledger = .error fault from ran]
  rfl

variable {position : Nat}

theorem outcome_setTime (inside : position < 3) (time : τ) :
    (setTime position time).outcome ledger =
      .ok (.ok (), { ledger with times := ledger.times.set position time }) := by
  rw [setTime, dif_pos inside]
  rfl

theorem outcome_setCount (inside : position < 6) (count : Nat) :
    (setCount position count : Run τ Unit).outcome ledger =
      .ok (.ok (), { ledger with counts := ledger.counts.set position count }) := by
  rw [setCount, dif_pos inside]
  rfl

theorem outcome_addTime [Scalar τ] (inside : position < 3) (time : τ) :
    (addTime position time).outcome ledger =
      .ok (.ok (),
        { ledger with times := ledger.times.set position (ledger.times[position] + time) }) := by
  have start : (get : Run τ (AccessLedger τ)).outcome ledger = .ok (.ok ledger, ledger) := rfl
  rw [addTime, outcome_bind start, Vector.getElem?_eq_getElem inside]
  exact outcome_setTime inside _

theorem outcome_addCount (inside : position < 6) {amount : Nat}
    (fits : Fits (ledger.counts[position] + amount)) :
    (addCount position amount : Run τ Unit).outcome ledger =
      .ok (.ok (),
        { ledger with
          counts := ledger.counts.set position (ledger.counts[position] + amount) }) := by
  have start : (get : Run τ (AccessLedger τ)).outcome ledger = .ok (.ok ledger, ledger) := rfl
  have added : (orCrash (Word.add ledger.counts[position] amount) : Run τ Nat).outcome ledger =
      .ok (.ok (ledger.counts[position] + amount), ledger) := by
    rw [Word.add, Word.hold_of_fits fits]
    rfl
  rw [addCount, outcome_bind start, Vector.getElem?_eq_getElem inside]
  exact (outcome_bind added).trans (outcome_setCount inside _)

theorem outcome_addCount_overflow (inside : position < 6) {amount : Nat}
    (large : ¬Fits (ledger.counts[position] + amount)) :
    (addCount position amount : Run τ Unit).outcome ledger = .error .overflow := by
  have start : (get : Run τ (AccessLedger τ)).outcome ledger = .ok (.ok ledger, ledger) := rfl
  have added : (orCrash (Word.add ledger.counts[position] amount) : Run τ Nat).outcome ledger =
      .error .overflow := by
    rw [Word.add, Word.hold_of_not_fits large]
    rfl
  rw [addCount, outcome_bind start, Vector.getElem?_eq_getElem inside]
  exact outcome_bind_fault added

end Run

theorem fits_iff {ledger : AccessLedger τ} :
    ledger.Fits ↔ ∀ kind,
      Fits (ledger.traffic kind).bytes ∧ Fits (ledger.traffic kind).operations := by
  rw [AccessLedger.Fits, counts_toList]
  constructor
  · intro fits kind
    have listed : kind ∈ Access.all := by cases kind <;> decide
    exact ⟨fits _ (List.mem_append_left _ (List.mem_map_of_mem listed)),
      fits _ (List.mem_append_right _ (List.mem_map_of_mem listed))⟩
  · intro fits count member
    rcases List.mem_append.mp member with bytes | operations
    · obtain ⟨kind, _, rfl⟩ := List.mem_map.mp bytes
      exact (fits kind).1
    · obtain ⟨kind, _, rfl⟩ := List.mem_map.mp operations
      exact (fits kind).2

variable [Scalar τ]

theorem fits_empty : (empty : AccessLedger τ).Fits := by
  have nothing : Fits 0 := by decide
  rw [fits_iff]
  intro kind
  rw [traffic_empty]
  exact ⟨nothing, nothing⟩

/-- Recording an access changes the counts of its kind alone. -/
theorem fits_record_iff {ledger : AccessLedger τ} (fits : ledger.Fits) (kind : Access) (time : τ)
    (bytes : Nat) :
    (ledger.record kind time bytes).Fits ↔
      Fits ((ledger.traffic kind).bytes + bytes) ∧
        Fits ((ledger.traffic kind).operations + 1) := by
  rw [fits_iff]
  constructor
  · intro recorded
    have here := recorded kind
    rwa [traffic_record] at here
  · intro here other
    by_cases same : other = kind
    · subst same
      rw [traffic_record]
      exact here
    · rw [traffic_record_of_ne _ same]
      exact fits_iff.mp fits other

/-- A ledger that had nothing before fits whenever one does that has had something. -/
theorem fits_record_empty {ledger : AccessLedger τ} (fits : ledger.Fits) {kind : Access} {time : τ}
    {bytes : Nat} (recorded : (ledger.record kind time bytes).Fits) :
    ((empty : AccessLedger τ).record kind time bytes).Fits := by
  have one : Fits (0 + 1) := by decide
  rw [fits_record_iff fits_empty, traffic_empty]
  exact ⟨Word.fits_of_le (Nat.add_le_add_right (Nat.zero_le _) _)
    ((fits_record_iff fits ..).mp recorded).1, one⟩

theorem outcome_record (ledger : AccessLedger τ) (kind : Access) (time : τ) (bytes : Nat) :
    (Run.record kind time bytes).outcome ledger =
      if Fits ((ledger.traffic kind).bytes + bytes) ∧ Fits ((ledger.traffic kind).operations + 1)
      then .ok (.ok (), ledger.record kind time bytes) else .error .overflow := by
  have inside := kind.index_lt
  let timed : AccessLedger τ :=
    { ledger with times := ledger.times.set kind.index (ledger.times[kind.index] + time) }
  let sized : AccessLedger τ :=
    { timed with counts := timed.counts.set kind.index (timed.counts[kind.index] + bytes) }
  have counted : sized.counts[3 + kind.index] = (ledger.traffic kind).operations := by
    simp [sized, timed, traffic]
  have start : (Run.addTime kind.index time).outcome ledger = .ok (.ok (), timed) :=
    Run.outcome_addTime inside time
  rw [Run.record, Run.outcome_bind start]
  by_cases more : Fits (timed.counts[kind.index] + bytes)
  · rw [Run.outcome_bind (Run.outcome_addCount (by omega) more)]
    by_cases one : Fits ((ledger.traffic kind).operations + 1)
    · have next : Fits (sized.counts[3 + kind.index] + 1) := counted ▸ one
      rw [if_pos ⟨more, one⟩]
      exact Run.outcome_addCount (by omega) next
    · have large : ¬Fits (sized.counts[3 + kind.index] + 1) := counted ▸ one
      rw [if_neg fun both => one both.2]
      exact Run.outcome_addCount_overflow (by omega) large
  · rw [Run.outcome_bind_fault (Run.outcome_addCount_overflow (by omega) more),
      if_neg fun both => more both.1]

/-- Recording in words breaks off if a counter would no longer fit. -/
theorem recordInWords_eq {ledger : AccessLedger τ} (fits : ledger.Fits) (kind : Access) (time : τ)
    (bytes : Nat) :
    ledger.recordInWords kind time bytes =
      if (ledger.record kind time bytes).Fits then .ok (ledger.record kind time bytes)
      else .error .overflow := by
  rw [recordInWords, outcome_record]
  simp only [fits_record_iff fits]
  split <;> rfl

end MergeCost.AccessLedger
