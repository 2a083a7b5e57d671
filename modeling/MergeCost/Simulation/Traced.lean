import MergeCost.Simulation.Composed
import MergeCost.Simulation.Transfers

/-!
Accesses to the disk in the log. Every run makes some transfers, and each of them that moves
something is reported when it is made; both ledgers of the disk can be had from the reports.
-/

namespace MergeCost

variable {τ σ α : Type}

namespace AccessLedger

variable [Scalar τ]

/-- Enters an access as it is reported. Other events have no place in a ledger of accesses. -/
def enter (ledger : AccessLedger τ) : Event τ → AccessLedger τ
  | .accessed _ kind bytes time => ledger.record kind time bytes
  | _ => ledger

/-- The ledger that all of these events come to. -/
def replay (events : List (Event τ)) : AccessLedger τ := events.foldl enter .empty

end AccessLedger

namespace Disk

variable [Scalar τ] (disk : Disk τ)

/-- The report of a transfer; one of no bytes has none. -/
def report? (transfer : Transfer) : Option (Event τ) :=
  if transfer.bytes = 0 then none
  else some
    (.accessed disk.device.name transfer.kind transfer.bytes (disk.device.timeOf transfer))

/-- The reports of transfers that are made one after the other. -/
def reports (disk : Disk τ) : List Transfer → List (Event τ)
  | [] => []
  | transfer :: rest => (disk.report? transfer).toList ++ (disk.transfer transfer).reports rest

theorem reports_append (first second : List Transfer) :
    disk.reports (first ++ second) =
      disk.reports first ++ (disk.transferAll first).reports second := by
  induction first generalizing disk with
  | nil => rfl
  | cons transfer rest ih =>
      simp only [List.cons_append, reports, ih, List.append_assoc]
      rfl

theorem ledgers_transfer (transfer : Transfer) :
    (disk.transfer transfer).total = (disk.report? transfer).elim disk.total disk.total.enter ∧
      (disk.transfer transfer).last =
        (disk.report? transfer).elim disk.last AccessLedger.empty.enter := by
  unfold Disk.transfer access report? Device.timeOf
  split <;> exact ⟨rfl, rfl⟩

theorem total_transferAll (transfers : List Transfer) :
    (disk.transferAll transfers).total =
      (disk.reports transfers).foldl AccessLedger.enter disk.total := by
  induction transfers generalizing disk with
  | nil => rfl
  | cons transfer rest ih =>
      rw [reports, List.foldl_append]
      refine (ih (disk.transfer transfer)).trans ?_
      rw [(disk.ledgers_transfer transfer).1]
      cases disk.report? transfer <;> rfl

/-- The ledger of the last access knows the last report alone. -/
theorem last_transferAll (transfers : List Transfer) :
    (disk.transferAll transfers).last =
      (disk.reports transfers).getLast?.elim disk.last AccessLedger.empty.enter := by
  induction transfers generalizing disk with
  | nil => rfl
  | cons transfer rest ih =>
      rw [reports, List.getLast?_append]
      refine (ih (disk.transfer transfer)).trans ?_
      rw [(disk.ledgers_transfer transfer).2]
      cases ((disk.transfer transfer).reports rest).getLast? with
      | none => cases disk.report? transfer <;> rfl
      | some final => rfl

end Disk

namespace Machine

/-- The accesses to the disk that are in the log. -/
def accesses (machine : Machine τ) : List (Event τ) :=
  machine.log.toList.filter fun event => event.target = .disk

/-- What lies between the machines are these transfers, and the log has a report of each. -/
structure Reports [Scalar τ] (before : Machine τ) (transfers : List Transfer)
    (after : Machine τ) : Prop where
  disk_eq : after.disk = before.disk.transferAll transfers
  accesses_eq : after.accesses = before.accesses ++ before.disk.reports transfers

theorem accesses_emit [Scalar τ] (machine : Machine τ) {event : Event τ}
    (merging : event.IsMerging) : (machine.emit event).accesses = machine.accesses := by
  have other : event.target ≠ .disk := by
    rw [merging]
    exact nofun
  simp [accesses, emit, other]

namespace Reports

variable [Scalar τ] {first second third : Machine τ} {earlier later : List Transfer}

theorem none {after : Machine τ} (disk : after.disk = first.disk)
    (accesses : after.accesses = first.accesses) : first.Reports [] after :=
  ⟨disk, accesses.trans (List.append_nil _).symm⟩

theorem trans (start : first.Reports earlier second) (rest : second.Reports later third) :
    first.Reports (earlier ++ later) third where
  disk_eq := by rw [rest.disk_eq, start.disk_eq, Disk.transferAll_append]
  accesses_eq := by
    rw [rest.accesses_eq, start.accesses_eq, start.disk_eq, Disk.reports_append, List.append_assoc]

theorem access (machine : Machine τ) (kind : Access) (bytes : Nat) :
    machine.Reports [⟨kind, bytes⟩] (machine.access kind bytes).2 where
  disk_eq := machine.disk_access kind bytes
  accesses_eq := by
    by_cases empty : bytes = 0
    · simp [Machine.access, Disk.reports, Disk.report?, empty]
    · have time := machine.access_time kind bytes
      simp only [Machine.access, if_neg empty] at time
      simp [Machine.access, Disk.reports, Disk.report?, empty, accesses, Event.target, time]

end Reports

end Machine

namespace Sim

/-- How a run goes that starts in a world: it makes these transfers one after the other, ends in a
value or a refusal, and leaves a world. -/
inductive Transfers [Scalar τ] : {σ α : Type} → Sim τ σ α → World τ σ → List Transfer →
    Except (Error τ) α → World τ σ → Prop
  | pure {σ α : Type} (value : α) (world : World τ σ) :
      Transfers (Pure.pure value) world [] (.ok value) world
  | throw {σ α : Type} (error : Error τ) (world : World τ σ) :
      Transfers (MonadExcept.throw error : Sim τ σ α) world [] (.error error) world
  | store {σ : Type} (world : World τ σ) : Transfers Sim.store world [] (.ok world.store) world
  | disk {σ : Type} (world : World τ σ) :
      Transfers Sim.disk world [] (.ok world.machine.disk) world
  | update {σ : Type} (change : σ → σ) (world : World τ σ) :
      Transfers (Sim.update change) world [] (.ok ()) ⟨change world.store, world.machine⟩
  | emit {σ : Type} {event : Event τ} (merging : event.IsMerging) (world : World τ σ) :
      Transfers (Sim.emit event) world [] (.ok ()) ⟨world.store, world.machine.emit event⟩
  | access {σ : Type} (kind : Access) (bytes : Nat) (world : World τ σ) :
      Transfers (Sim.access kind bytes) world [⟨kind, bytes⟩]
        (.ok (world.machine.access kind bytes).1)
        ⟨world.store, (world.machine.access kind bytes).2⟩
  | bind {σ α β : Type} {action : Sim τ σ α} {next : α → Sim τ σ β} {value : α}
      {result : Except (Error τ) β} {world between after : World τ σ}
      {earlier later : List Transfer} (first : Transfers action world earlier (.ok value) between)
      (rest : Transfers (next value) between later result after) :
      Transfers (action >>= next) world (earlier ++ later) result after
  | refused {σ α β : Type} {action : Sim τ σ α} {next : α → Sim τ σ β} {refusal : Error τ}
      {world after : World τ σ} {transfers : List Transfer}
      (first : Transfers action world transfers (.error refusal) after) :
      Transfers (action >>= next) world transfers (.error refusal) after
  | zoom {ρ σ α : Type} {inner : Sim τ σ α} {part : ρ → σ} {replace : σ → ρ → ρ}
      {world : World τ ρ} {after : World τ σ} {transfers : List Transfer}
      {result : Except (Error τ) α}
      (within : Transfers inner ⟨part world.store, world.machine⟩ transfers result after) :
      Transfers (Sim.zoom part replace inner) world transfers result
        ⟨replace after.store world.store, after.machine⟩

variable [Scalar τ] {action : Sim τ σ α} {world after : World τ σ} {result : Except (Error τ) α}

/-- However a run is composed, it goes by way of some transfers. -/
theorem Composed.exists_transfers (composed : action.Composed Event.IsMerging)
    (ran : outcome action world = .ok (result, after)) :
    ∃ transfers, action.Transfers world transfers result after := by
  induction composed with
  | pure value =>
      cases ran
      exact ⟨[], .pure value world⟩
  | throw error =>
      cases ran
      exact ⟨[], .throw error world⟩
  | crash fault => cases ran
  | store =>
      cases ran
      exact ⟨[], .store world⟩
  | update change =>
      cases ran
      exact ⟨[], .update change world⟩
  | emit told =>
      cases ran
      exact ⟨[], .emit told world⟩
  | access kind bytes =>
      cases ran
      exact ⟨_, .access kind bytes world⟩
  | @bind _ _ _ action next _ _ first rest =>
      rw [outcome_bind] at ran
      rcases started : outcome action world with fault | ⟨refusal | value, between⟩ <;>
        rw [started] at ran
      · cases ran
      · cases ran
        obtain ⟨transfers, refused⟩ := first started
        exact ⟨transfers, .refused refused⟩
      · obtain ⟨earlier, went⟩ := first started
        obtain ⟨later, more⟩ := rest value ran
        exact ⟨earlier ++ later, went.bind more⟩
  | disk_bind _ _ rest =>
      obtain ⟨transfers, went⟩ := rest world.machine.disk ran
      exact ⟨transfers, .bind (.disk world) went⟩
  | @zoom _ _ _ inner _ part replace ih =>
      rw [outcome_zoom] at ran
      cases ended : outcome inner ⟨part world.store, world.machine⟩ with
      | error fault =>
          rw [ended] at ran
          cases ran
      | ok done =>
          rw [ended] at ran
          cases ran
          obtain ⟨transfers, went⟩ := ih ended
          exact ⟨transfers, .zoom went⟩

/-- The log gets a report of each transfer that a run makes. -/
theorem Transfers.reports {transfers : List Transfer}
    (went : action.Transfers world transfers result after) :
    world.machine.Reports transfers after.machine := by
  induction went with
  | pure | throw | store | disk | update => exact .none rfl rfl
  | emit merging world => exact .none rfl (world.machine.accesses_emit merging)
  | access kind bytes world => exact .access world.machine kind bytes
  | bind _ _ first rest => exact first.trans rest
  | refused _ first => exact first
  | zoom _ within => exact within

end Sim

end MergeCost
