import MergeCost.Scenario.Override
import MergeCost.Proofs.Text.Counts

/-!
What variables make of a scenario. They are looked up one after the other; each that is set has to
spell a count, which replaces its setting. The first that does not is refused by name, and what has
been replaced before it stays so.
-/

namespace MergeCost

variable {τ : Type} {lookup : String → Option String} {settings : List Setting}
  {setting : Setting} {before between after scenario : Scenario τ} {count : Nat} {value : String}

theorem Setting.mem_all (setting : Setting) : setting ∈ Setting.all := by
  cases setting <;> decide

theorem Setting.memory_set (setting : Setting) (count : Nat) (scenario : Scenario τ) :
    (setting.set count scenario).memory = scenario.memory := by
  cases setting <;> rfl

theorem Setting.reorganization_set (setting : Setting) (count : Nat) (scenario : Scenario τ) :
    (setting.set count scenario).reorganization = scenario.reorganization := by
  cases setting <;> rfl

namespace Scenario

/-- Of these settings, those with a variable have the count that it spells; everything else is as
before. -/
structure Overridden (lookup : String → Option String) (settings : List Setting)
    (before after : Scenario τ) : Prop where
  replaced : ∀ setting ∈ settings, ∀ value, lookup setting.variableName = some value →
    Text.Spells value (setting.get after)
  kept : ∀ setting, (setting ∈ settings → lookup setting.variableName = none) →
    setting.get after = setting.get before
  memory_eq : after.memory = before.memory
  reorganization_eq : after.reorganization = before.reorganization

theorem Overridden.nothing (lookup : String → Option String) (scenario : Scenario τ) :
    Overridden lookup [] scenario scenario := by
  refine ⟨?_, fun _ _ => rfl, rfl, rfl⟩
  intro setting absent
  exact absurd absent List.not_mem_nil

theorem Overridden.skip (unset : lookup setting.variableName = none)
    (rest : Overridden lookup settings before after) :
    Overridden lookup (setting :: settings) before after := by
  refine ⟨?_, ?_, rest.memory_eq, rest.reorganization_eq⟩
  · intro other listed value found
    rcases List.mem_cons.mp listed with rfl | listed
    · rw [unset] at found
      cases found
    · exact rest.replaced other listed value found
  · intro other unset
    exact rest.kept other fun listed => unset (List.mem_cons_of_mem _ listed)

theorem Overridden.replace (fresh : setting ∉ settings)
    (found : lookup setting.variableName = some value) (spelled : Text.Spells value count)
    (rest : Overridden lookup settings (setting.set count before) after) :
    Overridden lookup (setting :: settings) before after := by
  refine ⟨?_, ?_, ?_, ?_⟩
  · intro other listed text given
    rcases List.mem_cons.mp listed with rfl | listed
    · have same : text = value := Option.some.inj (given.symm.trans found)
      rw [same, rest.kept other fun listed => absurd listed fresh, Setting.get_set, if_pos rfl]
      exact spelled
    · exact rest.replaced other listed text given
  · intro other unset
    have different : other ≠ setting := by
      rintro rfl
      rw [unset List.mem_cons_self] at found
      cases found
    rw [rest.kept other fun listed => unset (List.mem_cons_of_mem _ listed), Setting.get_set,
      if_neg different]
  · rw [rest.memory_eq, Setting.memory_set]
  · rw [rest.reorganization_eq, Setting.reorganization_set]

/-- The variable of this setting is the first that spells no count; just what stands before it has
been replaced. -/
structure Stopped (lookup : String → Option String) (settings : List Setting)
    (before after : Scenario τ) (setting : Setting) (value : String) : Prop where
  found : lookup setting.variableName = some value
  unspelled : ¬∃ count, Text.Spells value count
  reached : ∃ earlier later, settings = earlier ++ setting :: later ∧
    Overridden lookup earlier before after

/-- The outcome of looking up the variables of some settings in turn. -/
inductive Overrides (lookup : String → Option String) (settings : List Setting)
    (before : Scenario τ) : Scenario τ → Except (Error τ) Unit → Prop
  | done {after : Scenario τ} (overridden : Overridden lookup settings before after) :
      Overrides lookup settings before after (.ok ())
  | refused {after : Scenario τ} {setting : Setting} {value : String}
      (stopped : Stopped lookup settings before after setting value) :
      Overrides lookup settings before after
        (.error (.config (.notANumber setting.variableName value)))

theorem Overrides.skip {result : Except (Error τ) Unit}
    (unset : lookup setting.variableName = none)
    (rest : Overrides lookup settings before after result) :
    Overrides lookup (setting :: settings) before after result := by
  cases rest with
  | done overridden => exact .done (overridden.skip unset)
  | refused stopped =>
      obtain ⟨earlier, later, split, overridden⟩ := stopped.reached
      refine .refused ⟨stopped.found, stopped.unspelled, setting :: earlier, later, ?_,
        overridden.skip unset⟩
      rw [split, List.cons_append]

theorem Overrides.replace {result : Except (Error τ) Unit} (fresh : setting ∉ settings)
    (found : lookup setting.variableName = some value) (spelled : Text.Spells value count)
    (rest : Overrides lookup settings (setting.set count before) after result) :
    Overrides lookup (setting :: settings) before after result := by
  cases rest with
  | done overridden => exact .done (overridden.replace fresh found spelled)
  | refused stopped =>
      obtain ⟨earlier, later, rfl, overridden⟩ := stopped.reached
      have before_fresh : setting ∉ earlier := fun listed => fresh (List.mem_append_left _ listed)
      exact .refused ⟨stopped.found, stopped.unspelled, setting :: earlier, later, rfl,
        overridden.replace before_fresh found spelled⟩

/-- One variable after the other, in the order of the settings. -/
theorem overrideEach_overrides (distinct : settings.Nodup) (before : Scenario τ) :
    Overrides lookup settings before (overrideEach lookup settings before).1
      (overrideEach lookup settings before).2 := by
  induction settings generalizing before with
  | nil => exact .done (.nothing lookup before)
  | cons setting rest ih =>
      obtain ⟨fresh, distinct⟩ := List.nodup_cons.mp distinct
      cases found : lookup setting.variableName with
      | none =>
          simp only [overrideEach, found]
          exact (ih distinct before).skip found
      | some value =>
          cases read : Text.count? value with
          | some count =>
              simp only [overrideEach, found, read]
              have spelled := Text.count?_eq_some_iff.mp read
              exact (ih distinct (setting.set count before)).replace fresh found spelled
          | none =>
              simp only [overrideEach, found, read]
              have unspelled : ¬∃ count, Text.Spells value count := by
                rintro ⟨count, spelled⟩
                rw [Text.count?_eq_some_iff.mpr spelled] at read
                cases read
              exact .refused ⟨found, unspelled, [], rest, rfl, .nothing lookup before⟩

/-- A scenario is overridden without a refusal just if every variable that is set spells a count.
Then each of them is what its setting has become. Otherwise the first that does not is refused by
name; up to there settings have been replaced, and none from there on. -/
theorem override_in_order (lookup : String → Option String) (scenario : Scenario τ) :
    ∃ after result, scenario.override lookup = (after, result) ∧
      (result = .ok () ↔ ∀ setting : Setting, ∀ value,
        lookup setting.variableName = some value → ∃ count, Text.Spells value count) ∧
      (result = .ok () → Overridden lookup Setting.all scenario after) ∧
      (result ≠ .ok () → ∃ setting value, Stopped lookup Setting.all scenario after setting value ∧
        result = .error (.config (.notANumber setting.variableName value))) := by
  have distinct : Setting.all.Nodup := by decide
  have overrides : Overrides lookup Setting.all scenario (scenario.override lookup).1
      (scenario.override lookup).2 := overrideEach_overrides distinct scenario
  generalize scenario.override lookup = ended at overrides ⊢
  obtain ⟨after, result⟩ := ended
  refine ⟨after, result, rfl, ?_⟩
  cases overrides with
  | done overridden =>
      refine ⟨⟨fun _ setting value found => ?_, fun _ => rfl⟩, fun _ => overridden, ?_⟩
      · exact ⟨_, overridden.replaced setting setting.mem_all value found⟩
      · exact fun refused => absurd rfl refused
  | @refused setting value stopped =>
      refine ⟨⟨?_, fun spelled => ?_⟩, ?_, fun _ => ⟨setting, value, stopped, rfl⟩⟩
      · intro accepted
        cases accepted
      · exact absurd (spelled setting value stopped.found) stopped.unspelled
      · intro accepted
        cases accepted

end Scenario

end MergeCost
