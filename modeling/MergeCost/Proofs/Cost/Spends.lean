import MergeCost.Cold.ColdTier
import MergeCost.Simulation.Yields
import Mathlib.Data.Rat.Defs
import Mathlib.Tactic.Ring

/-!
Time that a machine spends, over exact seconds. Whatever a run reports as its time is the sum of the
accesses that it has logged, and the ledger of the disk has grown by as much.
-/

namespace MergeCost

/-- The time of an access; other events take none. -/
def Event.accessTime? {τ : Type} : Event τ → Option τ
  | accessed _ _ _ time => some time
  | _ => none

def Disk.seconds (disk : Disk Rat) : Rat := (disk.total.value .totalTime).toScalar

/-- What leads from one state of a machine to another is a number of accesses, which take the listed
times, and reports of other events. -/
inductive Machine.Calls : Machine Rat → List Rat → Machine Rat → Prop
  | done {machine : Machine Rat} : Calls machine [] machine
  | access {first last : Machine Rat} {kind : Access} {bytes : Nat} {times : List Rat}
      (rest : Calls (first.access kind bytes).2 times last) :
      Calls first ((first.access kind bytes).1 :: times) last
  | emit {first last : Machine Rat} {event : Event Rat} {times : List Rat}
      (free : event.accessTime? = none) (rest : Calls (first.emit event) times last) :
      Calls first times last

theorem Machine.Calls.append {first second third : Machine Rat} {earlier later : List Rat}
    (start : first.Calls earlier second) (rest : second.Calls later third) :
    first.Calls (earlier ++ later) third := by
  induction start with
  | done => exact rest
  | access _ ih => exact .access (ih rest)
  | emit free _ ih => exact .emit free (ih rest)

/-- Accesses of so many seconds together have been made, logged, and entered into the ledger of the
disk, and nothing else has been done to it. -/
structure Machine.Spends (before : Machine Rat) (time : Rat) (after : Machine Rat) : Prop where
  called : ∃ times, before.Calls times after ∧ times.sum = time
  logged : ∃ events, after.log.toList = before.log.toList ++ events ∧
    (events.filterMap Event.accessTime?).sum = time
  entered : after.disk.seconds = before.disk.seconds + time

theorem AccessLedger.totalTime_record (ledger : AccessLedger Rat) (kind : Access) (time : Rat)
    (bytes : Nat) :
    ((ledger.record kind time bytes).value .totalTime).toScalar =
      (ledger.value .totalTime).toScalar + time := by
  simp only [AccessLedger.value, Reading.toScalar, AccessLedger.times_toList, Access.all, Scalar.sum,
    List.map_cons, List.map_nil, List.foldl_cons, List.foldl_nil]
  cases kind <;>
    · simp only [AccessLedger.traffic_record, ne_eq, reduceCtorEq, not_false_eq_true,
        AccessLedger.traffic_record_of_ne, Traffic.record]
      ring

namespace Machine.Spends

variable {first second third machine : Machine Rat} {time : Rat}

theorem nothing (machine : Machine Rat) : machine.Spends 0 machine :=
  ⟨⟨[], .done, rfl⟩, ⟨[], by simp, rfl⟩, by simp⟩

theorem trans {earlier later : Rat} (start : first.Spends earlier second)
    (rest : second.Spends later third) (whole : time = earlier + later) :
    first.Spends time third := by
  obtain ⟨startTimes, startCalls, startTotal⟩ := start.called
  obtain ⟨restTimes, restCalls, restTotal⟩ := rest.called
  obtain ⟨before, startLog, startSum⟩ := start.logged
  obtain ⟨after, restLog, restSum⟩ := rest.logged
  refine ⟨⟨startTimes ++ restTimes, startCalls.append restCalls, ?_⟩, ⟨before ++ after, ?_, ?_⟩, ?_⟩
  · rw [List.sum_append, startTotal, restTotal, whole]
  · rw [restLog, startLog, List.append_assoc]
  · rw [List.filterMap_append, List.sum_append, startSum, restSum, whole]
  · rw [rest.entered, start.entered, whole]
    ring

theorem emit (machine : Machine Rat) {event : Event Rat} (free : event.accessTime? = none) :
    machine.Spends 0 (machine.emit event) :=
  ⟨⟨[], .emit free .done, rfl⟩, ⟨[event], by simp [Machine.emit], by simp [free]⟩,
    by simp [Machine.emit]⟩

theorem access (machine : Machine Rat) (kind : Access) (bytes : Nat) :
    machine.Spends (machine.access kind bytes).1 (machine.access kind bytes).2 := by
  by_cases none : bytes = 0
  · subst none
    exact nothing machine
  · refine ⟨⟨[(machine.access kind bytes).1], .access .done, by simp⟩,
      ⟨[.accessed machine.disk.device.name kind bytes (machine.access kind bytes).1], ?_, ?_⟩, ?_⟩
    · simp [Machine.access, none]
    · simp [Event.accessTime?]
    · simp only [Machine.access, none, if_false, Disk.access, Disk.seconds]
      exact AccessLedger.totalTime_record ..

end Machine.Spends

end MergeCost
