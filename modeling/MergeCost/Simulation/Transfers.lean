import MergeCost.Simulation.Outcome

/-!
Transfers: accesses to a disk as values. What a run comes to is decided by its store and by the
device, and it changes the disk by its transfers alone; ledgers and log have no part in it. Each way
to build a run has one rule.
-/

namespace MergeCost

structure Transfer where
  kind : Access
  bytes : Nat
deriving Repr, DecidableEq

variable {τ σ ρ α β : Type}

namespace Device

variable [Scalar τ]

/-- The time of a transfer; one of no bytes takes none. -/
def timeOf (device : Device τ) (transfer : Transfer) : τ :=
  if transfer.bytes = 0 then Scalar.zero else (device.access transfer.kind transfer.bytes).1

def transfer (device : Device τ) (transfer : Transfer) : Device τ :=
  if transfer.bytes = 0 then device else (device.access transfer.kind transfer.bytes).2

def transferAll (device : Device τ) (transfers : List Transfer) : Device τ :=
  transfers.foldl transfer device

theorem profile_transfer (device : Device τ) (transfer : Transfer) :
    (device.transfer transfer).profile = device.profile := by
  obtain ⟨kind, bytes⟩ := transfer
  by_cases none : bytes = 0
  · simp only [Device.transfer, if_pos none]
  · simp only [Device.transfer, if_neg none]
    cases device with
    | ssd drive =>
        cases kind with
        | read | write => rfl
        | overwrite => exact congrArg DeviceProfile.ssd (Ssd.profile_eraseFull ..)
    | pcm memory => cases kind <;> rfl

theorem profile_transferAll (device : Device τ) (transfers : List Transfer) :
    (device.transferAll transfers).profile = device.profile := by
  induction transfers generalizing device with
  | nil => rfl
  | cons transfer rest ih => exact (ih _).trans (device.profile_transfer transfer)

omit [Scalar τ] in
theorem blockSize_congr {first second : Device τ} (same : first.profile = second.profile) :
    first.blockSize = second.blockSize := by
  cases first with
  | ssd first =>
      cases second with
      | ssd second => exact congrArg Ssd.Profile.blockSize (DeviceProfile.ssd.inj same)
      | pcm second => cases same
  | pcm first =>
      cases second with
      | ssd second => cases same
      | pcm second => rfl

@[simp] theorem blockSize_transferAll (device : Device τ) (transfers : List Transfer) :
    (device.transferAll transfers).blockSize = device.blockSize :=
  blockSize_congr (device.profile_transferAll transfers)

end Device

namespace Disk

variable [Scalar τ]

def transfer (disk : Disk τ) (transfer : Transfer) : Disk τ :=
  (disk.access transfer.kind transfer.bytes).2

def transferAll (disk : Disk τ) (transfers : List Transfer) : Disk τ :=
  transfers.foldl transfer disk

theorem transferAll_append (disk : Disk τ) (first second : List Transfer) :
    disk.transferAll (first ++ second) = (disk.transferAll first).transferAll second :=
  List.foldl_append

theorem access_time (disk : Disk τ) (kind : Access) (bytes : Nat) :
    (disk.access kind bytes).1 = disk.device.timeOf ⟨kind, bytes⟩ := by
  unfold access Device.timeOf
  split <;> rfl

@[simp] theorem device_transfer (disk : Disk τ) (transfer : Transfer) :
    (disk.transfer transfer).device = disk.device.transfer transfer := by
  unfold Disk.transfer access Device.transfer
  split <;> rfl

@[simp] theorem device_transferAll (disk : Disk τ) (transfers : List Transfer) :
    (disk.transferAll transfers).device = disk.device.transferAll transfers := by
  induction transfers generalizing disk with
  | nil => rfl
  | cons transfer rest ih =>
      refine (ih (disk.transfer transfer)).trans ?_
      rw [device_transfer]
      rfl

end Disk

namespace Machine

variable [Scalar τ] (machine : Machine τ) (kind : Access) (bytes : Nat)

theorem access_time : (machine.access kind bytes).1 = machine.disk.device.timeOf ⟨kind, bytes⟩ := by
  rw [← Disk.access_time]
  by_cases none : bytes = 0
  · subst none
    rfl
  · simp only [access, if_neg none]

theorem disk_access :
    (machine.access kind bytes).2.disk = machine.disk.transfer ⟨kind, bytes⟩ := by
  by_cases none : bytes = 0
  · subst none
    rfl
  · simp only [access, if_neg none]
    rfl

end Machine

namespace Sim

variable [Scalar τ]

/-- On every disk with this device, the run from this store ends well in this value and leaves this
store, and the disk has made these transfers. -/
def Performs (action : Sim τ σ α) (store : σ) (device : Device τ) (value : α) (left : σ)
    (transfers : List Transfer) : Prop :=
  ∀ machine : Machine τ, machine.disk.device = device → ∃ after,
    outcome action ⟨store, machine⟩ = .ok (.ok value, ⟨left, after⟩) ∧
      after.disk = machine.disk.transferAll transfers

namespace Performs

variable {store between left : σ} {device : Device τ} {value : α} {result : β}
  {action : Sim τ σ α} {next : α → Sim τ σ β} {transfers earlier later : List Transfer}

theorem pure (value : α) (store : σ) (device : Device τ) :
    (Pure.pure value : Sim τ σ α).Performs store device value store [] :=
  fun machine _ => ⟨machine, rfl, rfl⟩

theorem update (change : σ → σ) (store : σ) (device : Device τ) :
    (Sim.update change : Sim τ σ Unit).Performs store device () (change store) [] :=
  fun machine _ => ⟨machine, rfl, rfl⟩

theorem emit (event : Event τ) (store : σ) (device : Device τ) :
    (Sim.emit event : Sim τ σ Unit).Performs store device () store [] :=
  fun machine _ => ⟨machine.emit event, rfl, rfl⟩

theorem access (kind : Access) (bytes : Nat) (store : σ) (device : Device τ) :
    (Sim.access kind bytes : Sim τ σ τ).Performs store device (device.timeOf ⟨kind, bytes⟩) store
      [⟨kind, bytes⟩] := by
  intro machine there
  rw [outcome_access, machine.access_time, there]
  exact ⟨_, rfl, machine.disk_access kind bytes⟩

theorem bind (start : action.Performs store device value between earlier)
    (rest : (next value).Performs between (device.transferAll earlier) result left later) :
    (action >>= next).Performs store device result left (earlier ++ later) := by
  intro machine there
  obtain ⟨middle, started, first⟩ := start machine there
  have reached : middle.disk.device = device.transferAll earlier := by
    rw [first, Disk.device_transferAll, there]
  obtain ⟨after, ended, second⟩ := rest middle reached
  refine ⟨after, ?_, ?_⟩
  · rw [outcome_bind, started, after_ok, ended]
  · rw [second, first, Disk.transferAll_append]

/-- What transfers nothing leaves the disk to the rest of a run. -/
theorem idle_bind (start : action.Performs store device value between [])
    (rest : (next value).Performs between device result left later) :
    (action >>= next).Performs store device result left later :=
  start.bind rest

/-- The rest of a run that transfers nothing more. -/
theorem bind_idle (start : action.Performs store device value between transfers)
    (rest : (next value).Performs between (device.transferAll transfers) result left []) :
    (action >>= next).Performs store device result left transfers := by
  have both := start.bind rest
  rwa [List.append_nil] at both

theorem bind_pure (start : action.Performs store device value between transfers)
    (change : α → β) :
    (action >>= fun value => Pure.pure (change value)).Performs store device (change value) between
      transfers :=
  start.bind_idle (.pure _ between _)

theorem store_bind {next : σ → Sim τ σ β}
    (rest : (next store).Performs store device result left transfers) :
    (Sim.store >>= next).Performs store device result left transfers :=
  rest

/-- A run that looks at the disk sees its device. -/
theorem disk_bind {next : Disk τ → Sim τ σ β}
    (rest : ∀ disk : Disk τ, disk.device = device →
      (next disk).Performs store device result left transfers) :
    (Sim.disk >>= next).Performs store device result left transfers :=
  fun machine there => rest machine.disk there machine there

theorem zoom {part : ρ → σ} {replace : σ → ρ → ρ} {whole : ρ}
    (inner : action.Performs (part whole) device value left transfers) :
    (Sim.zoom part replace action).Performs whole device value (replace left whole) transfers := by
  intro machine there
  obtain ⟨after, ended, transferred⟩ := inner machine there
  refine ⟨after, ?_, transferred⟩
  rw [outcome_zoom, ended]
  rfl

/-- A loop whose passes take the store through known states transfers what each of them does. -/
theorem iterate {step : α → Sim τ σ α} {stores : Nat → σ} {each : Nat → List Transfer}
    (steps : ∀ position value device, ∃ next, (step value).Performs (stores position) device next
      (stores (position + 1)) (each position))
    (count position : Nat) (value : α) (device : Device τ) :
    ∃ result, (Sim.iterate step count value).Performs (stores position) device result
      (stores (position + count)) ((List.range' position count).flatMap each) := by
  induction count generalizing position value device with
  | zero => exact ⟨value, .pure value _ device⟩
  | succ count ih =>
      obtain ⟨next, stepped⟩ := steps position value device
      obtain ⟨result, rest⟩ := ih (position + 1) next (device.transferAll (each position))
      rw [Nat.add_right_comm] at rest
      exact ⟨result, stepped.bind rest⟩

theorem addTimes {action : Sim τ σ τ} {stores : Nat → σ} {each : Nat → List Transfer}
    (steps : ∀ position device, ∃ time, action.Performs (stores position) device time
      (stores (position + 1)) (each position))
    (count position : Nat) (total : τ) (device : Device τ) :
    ∃ result, (Sim.addTimes action count total).Performs (stores position) device result
      (stores (position + count)) ((List.range' position count).flatMap each) := by
  refine iterate ?_ count position total device
  intro position total device
  obtain ⟨time, performed⟩ := steps position device
  exact ⟨_, performed.bind_pure _⟩

/-- A loop that leaves the store as it is transfers the same in every pass. -/
theorem iterate_same {step : α → Sim τ σ α}
    (steps : ∀ value device, ∃ next, (step value).Performs store device next store transfers)
    (count : Nat) (value : α) (device : Device τ) :
    ∃ result, (Sim.iterate step count value).Performs store device result store
      (List.replicate count transfers).flatten := by
  obtain ⟨result, ran⟩ := iterate (fun _ => steps) count 0 value device
  rw [List.flatMap_def, List.map_const', List.length_range'] at ran
  exact ⟨result, ran⟩

theorem addTimes_same {action : Sim τ σ τ}
    (steps : ∀ device, ∃ time, action.Performs store device time store transfers) (count : Nat)
    (total : τ) (device : Device τ) :
    ∃ result, (Sim.addTimes action count total).Performs store device result store
      (List.replicate count transfers).flatten := by
  refine iterate_same ?_ count total device
  intro total device
  obtain ⟨time, performed⟩ := steps device
  exact ⟨_, performed.bind_pure _⟩

end Performs

end Sim

end MergeCost
