import MergeCost.Proofs.Device.Words
import MergeCost.Simulation.Traced

/-!
Runs in words. The counts of a disk only grow along a run, so that to look at them in the end comes
to the same as to make each transfer of the run in words.
-/

namespace MergeCost

variable {τ σ ρ α β : Type}

namespace Disk

/-- The second disk has counted no less than the first. -/
structure Grows (before after : Disk τ) : Prop where
  wear_le : before.device.wear ≤ after.device.wear
  bytes_le : ∀ kind, (before.total.traffic kind).bytes ≤ (after.total.traffic kind).bytes
  operations_le : ∀ kind,
    (before.total.traffic kind).operations ≤ (after.total.traffic kind).operations

namespace Grows

variable {first second third : Disk τ}

theorem refl (disk : Disk τ) : disk.Grows disk :=
  ⟨Nat.le_refl _, fun _ => Nat.le_refl _, fun _ => Nat.le_refl _⟩

theorem trans (start : first.Grows second) (rest : second.Grows third) : first.Grows third where
  wear_le := start.wear_le.trans rest.wear_le
  bytes_le kind := (start.bytes_le kind).trans (rest.bytes_le kind)
  operations_le kind := (start.operations_le kind).trans (rest.operations_le kind)

theorem fits (grows : first.Grows second) (fits : second.Fits) : first.Fits := by
  refine ⟨Word.fits_of_le grows.wear_le fits.1, AccessLedger.fits_iff.mpr fun kind => ?_⟩
  obtain ⟨bytes, operations⟩ := AccessLedger.fits_iff.mp fits.2 kind
  exact ⟨Word.fits_of_le (grows.bytes_le kind) bytes,
    Word.fits_of_le (grows.operations_le kind) operations⟩

end Grows

variable [Scalar τ]

theorem grows_transfer (disk : Disk τ) (transfer : Transfer) :
    disk.Grows (disk.transfer transfer) := by
  obtain ⟨kind, bytes⟩ := transfer
  by_cases none : bytes = 0
  · subst none
    exact .refl disk
  · rw [Disk.transfer, access_some disk kind none]
    have more (other : Access) : (disk.total.traffic other).bytes ≤
          ((disk.total.record kind (disk.device.access kind bytes).1 bytes).traffic other).bytes ∧
        (disk.total.traffic other).operations ≤
          ((disk.total.record kind (disk.device.access kind bytes).1 bytes).traffic
            other).operations := by
      by_cases same : other = kind
      · subst same
        rw [AccessLedger.traffic_record]
        exact ⟨Nat.le_add_right .., Nat.le_add_right ..⟩
      · rw [AccessLedger.traffic_record_of_ne _ same]
        exact ⟨Nat.le_refl _, Nat.le_refl _⟩
    refine ⟨?_, fun other => (more other).1, fun other => (more other).2⟩
    exact (Nat.le_add_right ..).trans_eq (disk.device.access_effect kind bytes).2.symm

theorem grows_transferAll (disk : Disk τ) (transfers : List Transfer) :
    disk.Grows (disk.transferAll transfers) := by
  induction transfers generalizing disk with
  | nil => exact .refl disk
  | cons first rest ih => exact (disk.grows_transfer first).trans (ih (disk.transfer first))

def transferInWords (disk : Disk τ) (transfer : Transfer) : Except Fault (Disk τ) :=
  return (← disk.accessInWords transfer.kind transfer.bytes).2

def transferAllInWords (disk : Disk τ) (transfers : List Transfer) : Except Fault (Disk τ) :=
  transfers.foldlM transferInWords disk

theorem transferInWords_eq {disk : Disk τ} (sound : disk.device.Sound) (fits : disk.Fits)
    (transfer : Transfer) :
    disk.transferInWords transfer =
      if (disk.transfer transfer).Fits then .ok (disk.transfer transfer)
      else .error .overflow := by
  rw [transferInWords, accessInWords_eq sound fits, Word.bind_ite]
  rfl

theorem transfer_sound {disk : Disk τ} (sound : disk.device.Sound) (transfer : Transfer) :
    (disk.transfer transfer).device.Sound := by
  rw [device_transfer, Device.transfer]
  split
  · exact sound
  · exact sound.access ..

/-- Transfers in words break off just if the disk counts more in the end than fits into words. -/
theorem transferAllInWords_eq {disk : Disk τ} (sound : disk.device.Sound) (fits : disk.Fits)
    (transfers : List Transfer) :
    disk.transferAllInWords transfers =
      if (disk.transferAll transfers).Fits then .ok (disk.transferAll transfers)
      else .error .overflow := by
  induction transfers generalizing disk with
  | nil => exact (if_pos fits).symm
  | cons first rest ih =>
      rw [transferAllInWords, List.foldlM_cons, transferInWords_eq sound fits]
      by_cases next : (disk.transfer first).Fits
      · rw [if_pos next]
        exact ih (transfer_sound sound first) next
      · have large : ¬(disk.transferAll (first :: rest)).Fits :=
          fun whole => next (((disk.transfer first).grows_transferAll rest).fits whole)
        rw [if_neg next, if_neg large]
        rfl

end Disk

theorem EndsWithin.zoom {room : Prop} (part : ρ → σ) (replace : σ → ρ → ρ)
    {action exact : Sim τ σ α} (world : World τ ρ)
    (limits : EndsWithin room (action.outcome ⟨part world.store, world.machine⟩)
      (exact.outcome ⟨part world.store, world.machine⟩)) :
    EndsWithin room ((Sim.zoom part replace action).outcome world)
      ((Sim.zoom part replace exact).outcome world) := by
  rw [Sim.outcome_zoom, Sim.outcome_zoom]
  exact ⟨fun holds => by rw [limits.ends holds], fun large => by rw [limits.breaks large]; rfl⟩

namespace Sim

variable [Scalar τ] {action : Sim τ σ α} {world after : World τ σ} {result : Except (Error τ) α}

/-- However a run is composed, the counts of its disk only grow. -/
theorem Composed.grows (composed : action.Composed Event.IsMerging)
    (ran : outcome action world = .ok (result, after)) :
    world.machine.disk.Grows after.machine.disk := by
  obtain ⟨transfers, went⟩ := composed.exists_transfers ran
  rw [went.reports.disk_eq]
  exact Disk.grows_transferAll ..

/-- A run in words makes its transfers in words. -/
theorem Composed.inWords_eq (composed : action.Composed Event.IsMerging)
    (sound : world.machine.disk.device.Sound) (fits : world.machine.disk.Fits)
    (ran : outcome action world = .ok (result, after)) :
    ∃ transfers, action.Transfers world transfers result after ∧
      outcome (inWords action) world =
        (world.machine.disk.transferAllInWords transfers).map fun _ => (result, after) := by
  obtain ⟨transfers, went⟩ := composed.exists_transfers ran
  refine ⟨transfers, went, ?_⟩
  rw [Disk.transferAllInWords_eq sound fits, ← went.reports.disk_eq, outcome_inWords ran]
  split <;> rfl

section

variable {step : α → β → Sim τ σ α}
  (composed : ∀ value item, (step value item).Composed Event.IsMerging) {items : List β} {value : α}
include composed

theorem outcome_foldlM_inWords_of_fits
    (ran : outcome (items.foldlM step value) world = .ok (result, after))
    (start : world.machine.disk.Fits) :
    outcome (items.foldlM (fun value item => inWords (step value item)) value) world =
      if after.machine.disk.Fits then .ok (result, after) else .error .overflow := by
  induction items generalizing value world with
  | nil =>
      cases ran
      exact (if_pos start).symm
  | cons item rest ih =>
      rw [List.foldlM_cons] at ran ⊢
      rw [outcome_bind] at ran ⊢
      rcases stepped : outcome (step value item) world with fault | ⟨refusal | next, between⟩
      · rw [stepped] at ran
        cases ran
      · rw [stepped] at ran
        cases ran
        rw [outcome_inWords stepped]
        split <;> rfl
      · rw [stepped, after_ok] at ran
        rw [outcome_inWords stepped]
        by_cases fits : between.machine.disk.Fits
        · rw [if_pos fits]
          exact ih ran fits
        · have grows : between.machine.disk.Grows after.machine.disk :=
            (Composed.foldlM composed rest next).grows ran
          rw [if_neg fits, if_neg fun whole => fits (grows.fits whole)]
          rfl

/-- To look at the disk after each step comes to the same as to look at it in the end. -/
theorem outcome_foldlM_inWords
    (ran : outcome (items.foldlM step value) world = .ok (result, after)) (some : items ≠ []) :
    outcome (items.foldlM (fun value item => inWords (step value item)) value) world =
      if after.machine.disk.Fits then .ok (result, after) else .error .overflow := by
  by_cases start : world.machine.disk.Fits
  · exact outcome_foldlM_inWords_of_fits composed ran start
  · obtain ⟨item, rest, rfl⟩ := List.exists_cons_of_ne_nil some
    have grows : world.machine.disk.Grows after.machine.disk :=
      (Composed.foldlM composed (item :: rest) value).grows ran
    rw [if_neg fun whole => start (grows.fits whole), List.foldlM_cons, outcome_bind]
    rw [List.foldlM_cons, outcome_bind] at ran
    cases stepped : outcome (step value item) world with
    | error fault =>
        rw [stepped] at ran
        cases ran
    | ok done =>
        have stepGrows : world.machine.disk.Grows done.2.machine.disk :=
          (composed value item).grows stepped
        rw [outcome_inWords stepped, if_neg fun whole => start (stepGrows.fits whole)]
        rfl

end

end Sim

end MergeCost
