import MergeCost.Proofs.Json.Counts
import MergeCost.Proofs.Json.Listing
import MergeCost.Ledger.AccessLedger
import MergeCost.Ledger.OperationLedger

/-!
Reports of counters that are written and read back. The names and their order are those of the
report, but no kind of a reading is written: all of them are read as times, the counts too.
-/

namespace MergeCost

namespace Reading

/-- A time that its own numeral stands for, or a count of a word. -/
def Plain : Reading Float → Prop
  | .time seconds => Numeral.ReadsBack seconds
  | .count amount => amount ≤ maxCount

instance : DecidablePred Plain
  | .time seconds => inferInstanceAs (Decidable (Numeral.ReadsBack seconds))
  | .count amount => inferInstanceAs (Decidable (amount ≤ maxCount))

/-- What is left of a reading whose kind is forgotten. -/
def asTime (reading : Reading Float) : Reading Float := .time reading.toScalar

theorem toDouble_toJson {reading : Reading Float} (plain : reading.Plain) :
    reading.toJson.toDouble = .ok reading.toScalar := by
  cases reading with
  | time seconds => exact Json.toDouble_ofDouble plain
  | count amount =>
      simp only [toJson, Json.ofNat, Json.toDouble, Numeral.toDouble?_ofNat plain]
      rfl

theorem ofJson_toJson {reading : Reading Float} (plain : reading.Plain) :
    ofJson reading.toJson = .ok reading.asTime := by
  rw [ofJson, toDouble_toJson plain]
  rfl

theorem sound_toJson {reading : Reading Float} (plain : reading.Plain) :
    .string none ∉ reading.toJson.toTokens := by
  cases reading with
  | time seconds => exact (Json.readable_ofDouble plain).sound
  | count amount => exact Json.sound_ofNat amount

end Reading

namespace Sample

open Json

def asTime (sample : Sample Float) : Sample Float := { sample with value := sample.value.asTime }

variable {sample : Sample Float}

theorem ofJson_toJson (plain : sample.value.Plain) : ofJson sample.toJson = .ok sample.asTime := by
  have named : Named fields [("name", .ofText sample.name), ("value", sample.value.toJson)] :=
    ⟨rfl, by decide, by decide⟩
  rw [ofJson, toJson, named.bind_toRecord (.refl _),
    named.bind_required (.refl _) rfl (toText_ofText sample.name), if_pos (by simp),
    named.bind_required (.refl _) rfl (Reading.ofJson_toJson plain), if_pos (by simp)]
  rfl

theorem sound_toJson (plain : sample.value.Plain) : .string none ∉ sample.toJson.toTokens := by
  refine sound_ofMembers ?_
  simp only [List.forall_mem_cons]
  exact ⟨(readable_ofText sample.name).sound, Reading.sound_toJson plain, nofun⟩

variable {samples : List (Sample Float)}

theorem sound_itemTokens (plain : ∀ sample ∈ samples, sample.value.Plain) :
    .string none ∉ itemTokens (samples.map toJson) := by
  induction samples with
  | nil => simp [itemTokens]
  | cons first rest ih =>
      rw [List.forall_mem_cons] at plain
      simp [itemTokens, sound_toJson plain.1, ih plain.2]

theorem sound_array (plain : ∀ sample ∈ samples, sample.value.Plain) :
    .string none ∉ (Json.array (samples.map toJson)).toTokens := by
  cases samples with
  | nil => simp [toTokens]
  | cons first rest =>
      rw [List.forall_mem_cons] at plain
      simp [toTokens, sound_toJson plain.1, sound_itemTokens plain.2]

theorem mapM_ofJson (plain : ∀ sample ∈ samples, sample.value.Plain) :
    (samples.map toJson).mapM ofJson = .ok (samples.map asTime) := by
  induction samples with
  | nil => rfl
  | cons first rest ih =>
      rw [List.forall_mem_cons] at plain
      rw [List.map_cons, List.mapM_cons, ofJson_toJson plain.1, ih plain.2]
      rfl

/-- A report is read back with its names and in its order, each reading as a time. -/
theorem parseReport_report (plain : ∀ sample ∈ samples, sample.value.Plain) :
    parseReport (report samples) = .ok (samples.map asTime) := by
  rw [parseReport, report, parse_compact (sound_array plain)]
  exact mapM_ofJson plain

/-- A count comes back as another reading. -/
theorem map_asTime_ne {name : String} {amount : Nat} (counted : ⟨name, .count amount⟩ ∈ samples) :
    samples.map asTime ≠ samples := by
  intro same
  have fixed := List.map_inj_left.mp (same.trans samples.map_id.symm) _ counted
  simp [asTime, Reading.asTime] at fixed

end Sample

theorem AccessLedger.exists_count (ledger : AccessLedger Float) :
    ⟨AccessCounter.totalBytes.name, .count (total (ledger.counts.toList.take 3))⟩ ∈
      ledger.snapshot :=
  List.mem_map.mpr ⟨.totalBytes, by decide, rfl⟩

theorem OperationLedger.exists_count (ledger : OperationLedger Float) :
    ⟨OperationCounter.totalOperations.name,
      .count (total (ledger.requests.map Tally.operations))⟩ ∈ ledger.snapshot :=
  List.mem_map.mpr ⟨.totalOperations, by decide, rfl⟩

namespace AccessLedger

/-- One read of more bytes than a double counts. -/
def unevenRead : AccessLedger Float := empty.record .read 0.5 (2 ^ 53 + 1)

theorem plain_unevenRead : ∀ sample ∈ unevenRead.snapshot, sample.value.Plain := by decide +kernel

end AccessLedger

namespace OperationLedger

def singleLoading : OperationLedger Float := empty.record .loading 0.5 1

theorem plain_singleLoading : ∀ sample ∈ singleLoading.snapshot, sample.value.Plain := by
  decide +kernel

end OperationLedger

/-- The snapshot of a ledger comes back with the times it had, and with a time for each of its
counts; so it never comes back as it was. -/
theorem parseReport_snapshot {accesses : AccessLedger Float} {operations : OperationLedger Float}
    (plainAccesses : ∀ sample ∈ accesses.snapshot, sample.value.Plain)
    (plainOperations : ∀ sample ∈ operations.snapshot, sample.value.Plain) :
    (Sample.parseReport (Sample.report accesses.snapshot) =
        .ok (accesses.snapshot.map Sample.asTime) ∧
      accesses.snapshot.map Sample.asTime ≠ accesses.snapshot) ∧
    Sample.parseReport (Sample.report operations.snapshot) =
        .ok (operations.snapshot.map Sample.asTime) ∧
      operations.snapshot.map Sample.asTime ≠ operations.snapshot :=
  ⟨⟨Sample.parseReport_report plainAccesses, Sample.map_asTime_ne accesses.exists_count⟩,
    Sample.parseReport_report plainOperations, Sample.map_asTime_ne operations.exists_count⟩

theorem parseReport_snapshot_of_unevenRead :
    (∀ sample ∈ AccessLedger.unevenRead.snapshot, sample.value.Plain) ∧
      (∀ sample ∈ OperationLedger.singleLoading.snapshot, sample.value.Plain) ∧
      Sample.parseReport (Sample.report AccessLedger.unevenRead.snapshot) =
        .ok (AccessLedger.unevenRead.snapshot.map Sample.asTime) ∧
      Sample.parseReport (Sample.report OperationLedger.singleLoading.snapshot) =
        .ok (OperationLedger.singleLoading.snapshot.map Sample.asTime) := by
  have plainAccesses := AccessLedger.plain_unevenRead
  have plainOperations := OperationLedger.plain_singleLoading
  have read := parseReport_snapshot plainAccesses plainOperations
  exact ⟨plainAccesses, plainOperations, read.1.1, read.2.1⟩

/-- The bytes that were read come back as a time, and one byte is lost. -/
theorem report_of_unevenRead :
    ∃ read, Sample.parseReport (Sample.report AccessLedger.unevenRead.snapshot) = .ok read ∧
      read.map Sample.name = AccessLedger.unevenRead.snapshot.map Sample.name ∧
      read ≠ AccessLedger.unevenRead.snapshot ∧
      (read[3]?.map fun sample => (sample.value.isTime, sample.value.toCount)) =
        some (true, 2 ^ 53) ∧
      (AccessLedger.unevenRead.snapshot[3]?.map fun sample =>
        (sample.value.isTime, sample.value.toCount)) = some (false, 2 ^ 53 + 1) := by
  refine ⟨_, Sample.parseReport_report AccessLedger.plain_unevenRead, ?_,
    Sample.map_asTime_ne (AccessLedger.exists_count _), ?_, ?_⟩
  · rw [List.map_map]
    rfl
  · decide +kernel
  · decide +kernel

end MergeCost
