import MergeCost.Proofs.Ledger.Runs
import MergeCost.Proofs.Cold.Drain
import Mathlib.Data.List.DropRight

/-!
The counters of a device, whatever is done to its ledger. A raw counter shows what has been added to
it since it was last cleared, one amount after the other, and nothing that was meant for another
counter, although the counters share two arrays; a change that is refused leaves everything as it
is. Only a count that does not fit into a word breaks a run of changes off.
-/

namespace MergeCost

variable {τ : Type} [Scalar τ]

/-- Adds a reading of the same kind. -/
def Reading.plus : Reading τ → Reading τ → Reading τ
  | .time seconds, .time more => .time (seconds + more)
  | .count amount, .count more => .count (amount + more)
  | reading, _ => reading

/-- What a raw counter shows that nothing has been added to. -/
def AccessCounter.blank (counter : AccessCounter) : Reading τ :=
  if counter.isTime then .time Scalar.zero else .count 0

namespace Reading

protected def Fits {τ : Type} : Reading τ → Prop
  | time _ => True
  | count amount => Fits amount

end Reading

namespace AccessCounter

theorem index_inj {left right : AccessCounter} (same : left.index = right.index) :
    left = right := by
  have found := ofIndex?_index left
  rw [same, ofIndex?_index] at found
  exact (Option.some.inj found).symm

theorem index_lt_of_isTime {counter : AccessCounter} (raw : ¬counter.isDerived)
    (time : counter.isTime) : counter.index < 3 := by
  cases counter with
  | time access => exact access.index_lt
  | bytes | operations => cases time
  | _ => exact absurd rfl raw

theorem index_bounds_of_not_isTime {counter : AccessCounter} (raw : ¬counter.isDerived)
    (count : ¬counter.isTime) : 3 ≤ counter.index ∧ counter.index < 9 := by
  cases counter with
  | time access => exact absurd rfl count
  | bytes access | operations access =>
      have inside := access.index_lt
      simp only [index]
      omega
  | _ => exact absurd rfl raw

end AccessCounter

namespace AccessLedger

/-- What can be done to a ledger. -/
inductive Change (τ : Type) where
  | record (access : Access) (time : τ) (bytes : Nat)
  | add (counter : AccessCounter) (amount : Reading τ)
  | reset (counter : AccessCounter)
  /-- All counters are set to zero. -/
  | clear
deriving Repr

namespace Change

variable {τ : Type}

/-- Why a change is refused, if it is: its counter is derived, or its amount is of the wrong
kind. -/
def refusal? : Change τ → Option (ArgumentFault τ)
  | add counter amount =>
      if counter.isDerived then some (.derivedAdded counter)
      else if amount.isTime = counter.isTime then none
      else some (.kindMismatch counter)
  | reset counter => if counter.isDerived then some (.derivedReset counter) else none
  | record .. | clear => none

/-- What a change adds to a counter, if it is meant for it. -/
def added? (counter : AccessCounter) : Change τ → Option (Reading τ)
  | record access time bytes =>
      if counter = .time access then some (.time time)
      else if counter = .bytes access then some (.count bytes)
      else if counter = .operations access then some (.count 1)
      else none
  | add target amount =>
      if target = counter ∧ amount.isTime = counter.isTime then some amount else none
  | reset _ | clear => none

def clears (counter : AccessCounter) : Change τ → Bool
  | reset target => target = counter
  | clear => true
  | record .. | add .. => false

/-- The amounts that changes have added to a counter since it was last cleared. -/
def additions (counter : AccessCounter) (changes : List (Change τ)) : List (Reading τ) :=
  (changes.rtakeWhile fun change => !change.clears counter).filterMap (added? counter)

/-- An access, as additions to the three counters of its kind. -/
def parts (access : Access) (time : τ) (bytes : Nat) : List (Change τ) :=
  [.add (.time access) (.time time), .add (.bytes access) (.count bytes),
    .add (.operations access) (.count 1)]

/-- What a raw counter shows after a change that is not refused. -/
def effect (change : Change τ) [Scalar τ] (counter : AccessCounter) (before : Reading τ) :
    Reading τ :=
  if change.clears counter then counter.blank
  else (change.added? counter).elim before before.plus

/-- How a change ends that does not break off. -/
def result (change : Change τ) : Except (Error τ) Unit :=
  match change.refusal? with
  | some fault => .error (.argument fault)
  | none => .ok ()

def run [Scalar τ] : Change τ → Run τ Unit
  | record access time bytes => .record access time bytes
  | add counter amount => .add counter amount
  | reset counter => .reset counter
  | clear => .clear

def make [Scalar τ] (change : Change τ) (ledger : AccessLedger τ) :
    Except Fault (Except (Error τ) Unit × AccessLedger τ) :=
  change.run.outcome ledger

end Change

/-- Makes changes one after the other. Each of them ends in its result or its refusal. -/
def makeAll : List (Change τ) → AccessLedger τ →
    Except Fault (List (Except (Error τ) Unit) × AccessLedger τ)
  | [], ledger => .ok ([], ledger)
  | change :: rest, ledger => do
      let (result, ledger) ← change.make ledger
      let (results, ledger) ← makeAll rest ledger
      return (result :: results, ledger)

/-! What the arrays hold for a counter -/

theorem value_time (ledger : AccessLedger τ) (access : Access) :
    ledger.value (.time access) = .time (ledger.traffic access).time := by
  cases access <;> rfl

theorem value_of_times {ledger : AccessLedger τ} {counter : AccessCounter} {time : τ}
    (raw : ¬counter.isDerived) (found : ledger.times[counter.index]? = some time) :
    ledger.value counter = .time time := by
  cases counter with
  | time access =>
      obtain ⟨_, holds⟩ := Vector.getElem?_eq_some_iff.mp found
      exact congrArg Reading.time holds
  | bytes access | operations access =>
      obtain ⟨outside, _⟩ := Vector.getElem?_eq_some_iff.mp found
      simp only [AccessCounter.index] at outside
      omega
  | _ => exact absurd rfl raw

theorem value_of_counts {ledger : AccessLedger τ} {counter : AccessCounter} {count : Nat}
    (raw : ¬counter.isDerived) (counts : ¬counter.isTime)
    (found : ledger.counts[counter.index - 3]? = some count) :
    ledger.value counter = .count count := by
  obtain ⟨_, holds⟩ := Vector.getElem?_eq_some_iff.mp found
  cases counter with
  | time access => exact absurd rfl counts
  | bytes access | operations access => exact congrArg Reading.count holds
  | _ => exact absurd rfl raw

/-- Setting a time is felt by the counter in its place alone, and so is setting a count. -/
theorem value_setTime (ledger : AccessLedger τ) {target : AccessCounter}
    (inside : target.index < 3) (time : τ) {counter : AccessCounter} (raw : ¬counter.isDerived) :
    value { ledger with times := ledger.times.set target.index time } counter =
      if counter = target then .time time else ledger.value counter := by
  by_cases same : counter = target
  · subst same
    rw [if_pos rfl]
    exact value_of_times raw (Vector.getElem?_set_self inside)
  · have apart : target.index ≠ counter.index :=
      fun alike => same (AccessCounter.index_inj alike.symm)
    rw [if_neg same]
    cases counter with
    | time access =>
        obtain ⟨before, kept⟩ : ∃ before,
            ledger.times[(AccessCounter.time access).index]? = some before :=
          ⟨_, Vector.getElem?_eq_getElem access.index_lt⟩
        rw [value_of_times raw kept]
        exact value_of_times raw ((Vector.getElem?_set_ne inside apart).trans kept)
    | bytes access | operations access => rfl
    | _ => exact absurd rfl raw

theorem value_setCount (ledger : AccessLedger τ) {target : AccessCounter}
    (many : 3 ≤ target.index) (inside : target.index - 3 < 6) (count : Nat)
    {counter : AccessCounter} (raw : ¬counter.isDerived) :
    value { ledger with counts := ledger.counts.set (target.index - 3) count } counter =
      if counter = target then .count count else ledger.value counter := by
  by_cases counts : counter.isTime
  · have few := AccessCounter.index_lt_of_isTime raw counts
    rw [if_neg (by rintro rfl; omega)]
    cases counter with
    | time access => rfl
    | _ => contradiction
  · obtain ⟨least, most⟩ := AccessCounter.index_bounds_of_not_isTime raw counts
    by_cases same : counter = target
    · subst same
      rw [if_pos rfl]
      exact value_of_counts raw counts (Vector.getElem?_set_self inside)
    · have apart : target.index ≠ counter.index :=
        fun alike => same (AccessCounter.index_inj alike.symm)
      have among : counter.index - 3 < 6 := by omega
      have kept : ledger.counts[counter.index - 3]? = some ledger.counts[counter.index - 3] :=
        Vector.getElem?_eq_getElem among
      rw [if_neg same, value_of_counts raw counts kept]
      exact value_of_counts raw counts ((Vector.getElem?_set_ne inside (by omega)).trans kept)

theorem value_empty {counter : AccessCounter} (raw : ¬counter.isDerived) :
    (empty : AccessLedger τ).value counter = counter.blank := by
  cases counter with
  | time access | bytes access | operations access => cases access <;> rfl
  | _ => exact absurd rfl raw

/-- All raw counters of a ledger that fits show what fits. -/
theorem fits_iff_value {ledger : AccessLedger τ} :
    ledger.Fits ↔ ∀ counter, ¬counter.isDerived → (ledger.value counter).Fits := by
  rw [fits_iff]
  constructor
  · intro fits counter raw
    cases counter with
    | time access => exact trivial
    | bytes access =>
        rw [value_bytes]
        exact (fits access).1
    | operations access =>
        rw [value_operations]
        exact (fits access).2
    | _ => exact absurd rfl raw
  · intro fits access
    have bytes := fits (.bytes access) nofun
    have operations := fits (.operations access) nofun
    rw [value_bytes] at bytes
    rw [value_operations] at operations
    exact ⟨bytes, operations⟩

/-! One change -/

theorem make_refused {change : Change τ} {fault : ArgumentFault τ}
    (reason : change.refusal? = some fault) (ledger : AccessLedger τ) :
    change.make ledger = .ok (.error (.argument fault), ledger) := by
  cases change with
  | record | clear => cases reason
  | add counter amount => cases counter <;> cases amount <;> cases reason <;> rfl
  | reset counter => cases counter <;> cases reason <;> rfl

theorem effect_add {target : AccessCounter} {amount : Reading τ}
    (kinds : amount.isTime = target.isTime) (counter : AccessCounter) (before : Reading τ) :
    (Change.add target amount).effect counter before =
      if counter = target then before.plus amount else before := by
  rw [Change.effect, Change.clears, if_neg Bool.false_ne_true, Change.added?]
  by_cases same : counter = target
  · subst same
    rw [if_pos ⟨rfl, kinds⟩, if_pos rfl]
    rfl
  · rw [if_neg fun both => same both.1.symm, if_neg same]
    rfl

theorem effect_reset (target counter : AccessCounter) (before : Reading τ) :
    (Change.reset target : Change τ).effect counter before =
      if counter = target then counter.blank else before := by
  by_cases same : counter = target
  · subst same
    simp [Change.effect, Change.clears]
  · simp [Change.effect, Change.clears, Change.added?, same, Ne.symm same]

theorem fits_blank (counter : AccessCounter) : (counter.blank : Reading τ).Fits := by
  unfold AccessCounter.blank
  split
  · exact trivial
  · exact (by decide : Fits 0)

/-- Without a refusal, a change is made as far as what it adds up to fits into words. -/
def Change.Makes (change : Change τ) (ledger : AccessLedger τ) : Prop :=
  (∃ after, change.make ledger = .ok (.ok (), after) ∧ after.Fits ∧
    ∀ counter, ¬counter.isDerived →
      after.value counter = change.effect counter (ledger.value counter)) ∨
  change.make ledger = .error .overflow ∧ ∃ counter, ¬counter.isDerived ∧
    ¬(change.effect counter (ledger.value counter)).Fits

/-- A change that sets one counter. -/
theorem Change.makes_of_set {change : Change τ} {ledger after : AccessLedger τ}
    (start : ledger.Fits) (made : change.make ledger = .ok (.ok (), after))
    (target : AccessCounter) {shown : Reading τ} (fits : shown.Fits)
    (effect : ∀ counter, change.effect counter (ledger.value counter) =
      if counter = target then shown else ledger.value counter)
    (values : ∀ counter, ¬counter.isDerived → after.value counter =
      if counter = target then shown else ledger.value counter) : change.Makes ledger := by
  refine .inl ⟨after, made, ?_, fun counter raw => (values counter raw).trans (effect counter).symm⟩
  rw [fits_iff_value]
  intro counter raw
  rw [values counter raw]
  split
  · exact fits
  · exact fits_iff_value.mp start counter raw

section

variable {target : AccessCounter} (raw : ¬target.isDerived) {ledger : AccessLedger τ}
  (start : ledger.Fits)
include raw start

theorem makes_add_time (isTime : target.isTime) (seconds : τ) :
    (Change.add target (.time seconds)).Makes ledger := by
  have inside := AccessCounter.index_lt_of_isTime raw isTime
  have before : ledger.value target = .time ledger.times[target.index] :=
    value_of_times raw (Vector.getElem?_eq_getElem inside)
  have made : (Change.add target (.time seconds)).make ledger =
      (Run.addTime target.index seconds).outcome ledger := by
    cases target <;> first | rfl | contradiction
  rw [Run.outcome_addTime inside] at made
  have kinds : (Reading.time seconds).isTime = target.isTime := isTime.symm
  have fits : (Reading.time (ledger.times[target.index] + seconds)).Fits := trivial
  refine Change.makes_of_set start made target fits (fun counter => ?_) fun counter here =>
    value_setTime ledger inside _ here
  rw [effect_add kinds]
  by_cases same : counter = target
  · subst same
    rw [if_pos rfl, if_pos rfl, before]
    rfl
  · rw [if_neg same, if_neg same]

theorem makes_add_count (isCount : ¬target.isTime) (amount : Nat) :
    (Change.add target (.count amount) : Change τ).Makes ledger := by
  obtain ⟨many, few⟩ := AccessCounter.index_bounds_of_not_isTime raw isCount
  have inside : target.index - 3 < 6 := by omega
  have kinds : (Reading.count amount : Reading τ).isTime = target.isTime :=
    (Bool.eq_false_of_not_eq_true isCount).symm
  have before : ledger.value target = .count ledger.counts[target.index - 3] :=
    value_of_counts raw isCount (Vector.getElem?_eq_getElem inside)
  have made : (Change.add target (.count amount) : Change τ).make ledger =
      (Run.addCount (target.index - 3) amount).outcome ledger := by
    cases target <;> first | rfl | contradiction
  by_cases fits : Fits (ledger.counts[target.index - 3] + amount)
  · rw [Run.outcome_addCount inside fits] at made
    have whole : (Reading.count (ledger.counts[target.index - 3] + amount) : Reading τ).Fits := fits
    refine Change.makes_of_set start made target whole (fun counter => ?_) fun counter here =>
      value_setCount ledger many inside _ here
    rw [effect_add kinds]
    by_cases same : counter = target
    · subst same
      rw [if_pos rfl, if_pos rfl, before]
      rfl
    · rw [if_neg same, if_neg same]
  · rw [Run.outcome_addCount_overflow inside fits] at made
    refine .inr ⟨made, target, raw, ?_⟩
    rw [effect_add kinds, if_pos rfl, before]
    exact fits

theorem makes_reset : (Change.reset target : Change τ).Makes ledger := by
  have effect (counter : AccessCounter) :
      (Change.reset target).effect counter (ledger.value counter) =
        if counter = target then target.blank else ledger.value counter := by
    rw [effect_reset]
    split
    · rename_i same
      rw [same]
    · rfl
  by_cases isTime : target.isTime
  · have inside := AccessCounter.index_lt_of_isTime raw isTime
    have made : (Change.reset target : Change τ).make ledger =
        (Run.setTime target.index Scalar.zero).outcome ledger := by
      cases target <;> first | rfl | contradiction
    have blank : (target.blank : Reading τ) = .time Scalar.zero := if_pos isTime
    rw [Run.outcome_setTime inside] at made
    refine Change.makes_of_set start made target (fits_blank target) effect fun counter here => ?_
    rw [value_setTime ledger inside _ here, blank]
  · obtain ⟨many, few⟩ := AccessCounter.index_bounds_of_not_isTime raw isTime
    have inside : target.index - 3 < 6 := by omega
    have made : (Change.reset target : Change τ).make ledger =
        (Run.setCount (target.index - 3) 0).outcome ledger := by
      cases target <;> first | rfl | contradiction
    have blank : (target.blank : Reading τ) = .count 0 := if_neg isTime
    rw [Run.outcome_setCount inside] at made
    refine Change.makes_of_set start made target (fits_blank target) effect fun counter here => ?_
    rw [value_setCount ledger many inside _ here, blank]

end

/-- An access goes to the three counters of its kind. -/
theorem value_record (ledger : AccessLedger τ) (access : Access) (time : τ) (bytes : Nat)
    {counter : AccessCounter} (raw : ¬counter.isDerived) :
    (ledger.record access time bytes).value counter =
      (Change.record access time bytes).effect counter (ledger.value counter) := by
  cases counter with
  | time kind | bytes kind | operations kind =>
      simp only [value_time, value_bytes, value_operations]
      by_cases same : kind = access
      · subst same
        rw [traffic_record]
        simp [Change.effect, Change.clears, Change.added?, Reading.plus, Traffic.record]
      · rw [traffic_record_of_ne _ same]
        simp [Change.effect, Change.clears, Change.added?, same]
  | _ => exact absurd rfl raw

theorem makes_record {ledger : AccessLedger τ} (start : ledger.Fits) (access : Access) (time : τ)
    (bytes : Nat) : (Change.record access time bytes).Makes ledger := by
  have made : (Change.record access time bytes).make ledger = _ :=
    outcome_record ledger access time bytes
  have values (counter : AccessCounter) (raw : ¬counter.isDerived) :=
    ledger.value_record access time bytes raw
  simp only [← fits_record_iff start access time] at made
  by_cases fits : (ledger.record access time bytes).Fits
  · rw [if_pos fits] at made
    exact .inl ⟨_, made, fits, values⟩
  · rw [if_neg fits] at made
    refine .inr ⟨made, ?_⟩
    rw [fits_iff_value] at fits
    push Not at fits
    obtain ⟨counter, raw, large⟩ := fits
    rw [values counter raw] at large
    exact ⟨counter, raw, large⟩

theorem makes_of_accepted {change : Change τ} (accepted : change.refusal? = none)
    {ledger : AccessLedger τ} (start : ledger.Fits) : change.Makes ledger := by
  cases change with
  | record access time bytes => exact makes_record start access time bytes
  | add target amount =>
      simp only [Change.refusal?] at accepted
      split at accepted
      · cases accepted
      · rename_i raw
        split at accepted
        · rename_i kinds
          cases amount with
          | time seconds => exact makes_add_time raw start kinds.symm seconds
          | count amount => exact makes_add_count raw start (kinds ▸ nofun) amount
        · cases accepted
  | reset target =>
      simp only [Change.refusal?] at accepted
      split at accepted
      · cases accepted
      · rename_i raw
        exact makes_reset raw start
  | clear =>
      exact .inl ⟨empty, rfl, fits_empty, fun counter raw => value_empty raw⟩

theorem effect_of_refused {change : Change τ} {fault : ArgumentFault τ}
    (reason : change.refusal? = some fault) {counter : AccessCounter} (raw : ¬counter.isDerived)
    (before : Reading τ) : change.effect counter before = before := by
  cases change with
  | record | clear => cases reason
  | add target amount =>
      have other : ¬(target = counter ∧ amount.isTime = counter.isTime) := by
        rintro ⟨rfl, kinds⟩
        rw [Change.refusal?, if_neg raw, if_pos kinds] at reason
        cases reason
      rw [Change.effect, Change.clears, if_neg Bool.false_ne_true, Change.added?, if_neg other]
      rfl
  | reset target =>
      have other : counter ≠ target := by
        rintro rfl
        rw [Change.refusal?, if_neg raw] at reason
        cases reason
      rw [effect_reset, if_neg other]

/-- A change ends as it should, with its effect on every raw counter, or it breaks off since this
does not fit. -/
theorem make_cases {ledger : AccessLedger τ} (start : ledger.Fits) (change : Change τ) :
    (∃ after, change.make ledger = .ok (change.result, after) ∧ after.Fits ∧
      ∀ counter, ¬counter.isDerived →
        after.value counter = change.effect counter (ledger.value counter)) ∨
    change.make ledger = .error .overflow ∧ ∃ counter, ¬counter.isDerived ∧
      ¬(change.effect counter (ledger.value counter)).Fits := by
  cases reason : change.refusal? with
  | none =>
      rw [Change.result, reason]
      exact makes_of_accepted reason start
  | some fault =>
      rw [Change.result, reason]
      exact .inl ⟨ledger, make_refused reason ledger, start,
        fun counter raw => (effect_of_refused reason raw _).symm⟩

/-! Many changes -/

/-- What a raw counter shows after changes of which none is refused or breaks off. -/
def shown (counter : AccessCounter) (changes : List (Change τ)) (before : Reading τ) : Reading τ :=
  changes.foldl (fun shown change => change.effect counter shown) before

theorem makeAll_cons {change : Change τ} {ledger between : AccessLedger τ}
    {result : Except (Error τ) Unit} (made : change.make ledger = .ok (result, between))
    (rest : List (Change τ)) :
    makeAll (change :: rest) ledger =
      (makeAll rest between).map fun done => (result :: done.1, done.2) := by
  rw [makeAll, made]
  change (makeAll rest between >>= _) = _
  cases makeAll rest between <;> rfl

theorem makeAll_cases {ledger : AccessLedger τ} (start : ledger.Fits) (changes : List (Change τ)) :
    (∃ after, makeAll changes ledger = .ok (changes.map Change.result, after) ∧ after.Fits ∧
      ∀ counter, ¬counter.isDerived →
        after.value counter = shown counter changes (ledger.value counter)) ∨
    makeAll changes ledger = .error .overflow ∧ ∃ earlier counter, earlier <+: changes ∧
      ¬counter.isDerived ∧ ¬(shown counter earlier (ledger.value counter)).Fits := by
  induction changes generalizing ledger with
  | nil => exact .inl ⟨ledger, rfl, start, fun _ _ => rfl⟩
  | cons first rest ih =>
      rcases make_cases start first with ⟨between, made, fits, values⟩ |
        ⟨broken, counter, raw, large⟩
      · rw [makeAll_cons made]
        rcases ih fits with ⟨after, ended, still, more⟩ |
          ⟨broken, earlier, counter, initial, raw, large⟩
        · rw [ended]
          refine .inl ⟨after, rfl, still, fun counter raw => ?_⟩
          rw [more counter raw, values counter raw]
          rfl
        · rw [broken]
          rw [values counter raw] at large
          exact .inr ⟨rfl, first :: earlier, counter, List.cons_prefix_cons.mpr ⟨rfl, initial⟩, raw,
            large⟩
      · rw [makeAll, broken]
        exact .inr ⟨rfl, [first], counter, List.prefix_append [first] rest, raw, large⟩

/-- Changes that clear nothing add their amounts up. -/
theorem shown_of_kept {counter : AccessCounter} {changes : List (Change τ)}
    (kept : ∀ change ∈ changes, ¬change.clears counter) (before : Reading τ) :
    shown counter changes before =
      (changes.filterMap (Change.added? counter)).foldl .plus before := by
  induction changes generalizing before with
  | nil => rfl
  | cons first rest ih =>
      obtain ⟨here, there⟩ := List.forall_mem_cons.mp kept
      have effect : first.effect counter before =
          (first.added? counter).elim before before.plus := if_neg here
      refine (ih there (first.effect counter before)).trans ?_
      rw [effect]
      cases added : first.added? counter <;> simp [added]

/-- What a counter shows is what has been added to it since it was last cleared, in the order in
which it was added. -/
theorem shown_eq (counter : AccessCounter) (changes : List (Change τ)) :
    shown counter changes counter.blank =
      (Change.additions counter changes).foldl .plus counter.blank := by
  let kept (change : Change τ) : Bool := !change.clears counter
  have blank : shown counter (changes.rdropWhile kept) counter.blank = counter.blank := by
    rcases List.eq_nil_or_concat' (changes.rdropWhile kept) with none | ⟨earlier, last, ended⟩
    · rw [none]
      rfl
    · have clears : last.clears counter := by
        have stopped := List.rdropWhile_last_not kept changes (by simp [ended])
        simpa [ended, kept] using stopped
      rw [ended, shown, List.foldl_concat, Change.effect, if_pos clears]
  have since : ∀ change ∈ changes.rtakeWhile kept, ¬change.clears counter := by
    intro change inside
    simpa [kept] using List.mem_rtakeWhile_imp inside
  have whole : shown counter changes counter.blank =
      shown counter (changes.rtakeWhile kept)
        (shown counter (changes.rdropWhile kept) counter.blank) := by
    rw [shown, shown, shown, ← List.foldl_append, List.rdropWhile_append_rtakeWhile]
  rw [whole, blank]
  exact shown_of_kept since counter.blank

/-! Accesses in parts -/

/-- A ledger is known by its raw counters. -/
theorem ext_value {left right : AccessLedger τ}
    (same : ∀ counter, ¬counter.isDerived → left.value counter = right.value counter) :
    left = right := by
  apply ext_traffic
  intro access
  have time := same (.time access) nofun
  have bytes := same (.bytes access) nofun
  have operations := same (.operations access) nofun
  rw [value_time, value_time] at time
  rw [value_bytes, value_bytes] at bytes
  rw [value_operations, value_operations] at operations
  generalize left.traffic access = found, right.traffic access = other at time bytes operations
  cases found
  cases other
  exact congr (congr (congrArg Traffic.mk (Reading.time.inj time)) (Reading.count.inj bytes))
    (Reading.count.inj operations)

section

variable {access : Access} {time : τ} {bytes : Nat} {parts : List (Change τ)}

omit [Scalar τ] in
theorem Change.add_of_mem_parts {change : Change τ}
    (inside : change ∈ Change.parts access time bytes) :
    change.refusal? = none ∧ ∃ counter amount, change = .add counter amount := by
  rcases List.mem_cons.mp inside with rfl | inside
  · exact ⟨rfl, _, _, rfl⟩
  · rcases List.mem_pair.mp inside with rfl | rfl <;> exact ⟨rfl, _, _, rfl⟩

omit [Scalar τ] in
/-- Each part of an access is meant for another counter, so their order makes no difference to any
of them. -/
theorem Change.filterMap_parts (arranged : parts.Perm (Change.parts access time bytes))
    {counter : AccessCounter} (raw : ¬counter.isDerived) :
    parts.filterMap (added? counter) =
      ((Change.record access time bytes).added? counter).toList := by
  have inOrder : (Change.parts access time bytes).filterMap (added? counter) =
      ((Change.record access time bytes).added? counter).toList := by
    cases counter with
    | time kind | bytes kind | operations kind => cases access <;> cases kind <;> rfl
    | _ => exact absurd rfl raw
  have alike := arranged.filterMap (added? counter)
  rw [inOrder] at alike
  cases given : (Change.record access time bytes).added? counter with
  | none =>
      rw [given] at alike
      exact List.perm_nil.mp alike
  | some amount =>
      rw [given] at alike
      exact List.perm_singleton.mp alike

/-- An access in words has the effect of its parts, in whatever order they are added, and breaks off
if one of them does. -/
theorem makeAll_parts {ledger : AccessLedger τ} (start : ledger.Fits)
    (arranged : parts.Perm (Change.parts access time bytes)) :
    makeAll parts ledger =
      ((Change.record access time bytes).make ledger).map fun done =>
        (parts.map fun _ => .ok (), done.2) := by
  have additions (change : Change τ) (inside : change ∈ parts) :=
    Change.add_of_mem_parts (arranged.mem_iff.mp inside)
  have kept (counter : AccessCounter) : ∀ change ∈ parts, ¬change.clears counter := by
    intro change inside
    obtain ⟨_, _, rfl⟩ := (additions change inside).2
    exact nofun
  have results : parts.map Change.result = parts.map fun _ => .ok () := by
    refine List.map_congr_left fun change inside => ?_
    rw [Change.result, (additions change inside).1]
  let given (counter : AccessCounter) := (Change.record access time bytes).added? counter
  have effect (counter : AccessCounter) (before : Reading τ) :
      (Change.record access time bytes).effect counter before =
        (given counter).toList.foldl .plus before := by
    change (given counter).elim before before.plus = _
    cases given counter <;> rfl
  rcases makes_record start access time bytes with ⟨after, made, fits, values⟩ |
    ⟨broken, counter, raw, large⟩
  · rw [made]
    rcases makeAll_cases start parts with ⟨other, ended, _, more⟩ |
      ⟨_, earlier, counter, ⟨later, split⟩, raw, large⟩
    · have same : other = after := by
        refine ext_value fun counter raw => ?_
        rw [more counter raw, values counter raw, shown_of_kept (kept counter),
          Change.filterMap_parts arranged raw, effect]
      rw [ended, results, same]
      rfl
    · -- The part meant for the counter is among the earlier ones or not; both sums fit.
      have sums := Change.filterMap_parts arranged raw
      rw [← split, List.filterMap_append] at sums
      have initial : ∀ change ∈ earlier, ¬change.clears counter := fun change inside =>
        kept counter change (split ▸ List.mem_append_left later inside)
      rw [shown_of_kept initial] at large
      by_cases nothing : earlier.filterMap (Change.added? counter) = []
      · rw [nothing] at large
        exact absurd (fits_iff_value.mp start counter raw) large
      · have few : (given counter).toList.length ≤ 1 := by
          cases given counter <;> simp
        have all : earlier.filterMap (Change.added? counter) = (given counter).toList :=
          List.IsPrefix.eq_of_length_le ⟨_, sums⟩
            (few.trans (List.length_pos_of_ne_nil nothing))
        have shows := fits_iff_value.mp fits counter raw
        rw [values counter raw, effect, ← all] at shows
        exact absurd shows large
  · rw [broken]
    rcases makeAll_cases start parts with ⟨other, ended, still, more⟩ | ⟨alsoBroken, _⟩
    · have shows := fits_iff_value.mp still counter raw
      rw [more counter raw, shown_of_kept (kept counter), Change.filterMap_parts arranged raw,
        ← effect] at shows
      exact absurd shows large
    · exact alsoBroken

end

/-! Derived counters -/

theorem totalBytes_eq (ledger : AccessLedger τ) :
    ledger.valueInWords .totalBytes = (Word.hold
      (Access.all.map fun access => (ledger.value (.bytes access)).toCount).sum).map .count := by
  have bytes : ledger.counts.toList.take 3 =
      Access.all.map fun access => (ledger.value (.bytes access)).toCount := by
    simp only [counts_toList, value_bytes]
    rfl
  rw [valueInWords, Word.sum_eq, bytes]
  rfl

theorem totalOperations_eq (ledger : AccessLedger τ) :
    ledger.valueInWords .totalOperations = (Word.hold
      (Access.all.map fun access => (ledger.value (.operations access)).toCount).sum).map
        .count := by
  have operations : ledger.counts.toList.drop 3 =
      Access.all.map fun access => (ledger.value (.operations access)).toCount := by
    simp only [counts_toList, value_operations]
    rfl
  rw [valueInWords, Word.sum_eq, operations]
  rfl

theorem averageBytes_eq (ledger : AccessLedger τ) (access : Access) :
    ledger.valueInWords (.averageBytes access) = .ok (.count
      (if (ledger.value (.operations access)).toCount = 0 then 0
        else (ledger.value (.bytes access)).toCount /
          (ledger.value (.operations access)).toCount)) := by
  have average : ledger.valueInWords (.averageBytes access) =
      .ok (.count ((ledger.traffic access).bytes / (ledger.traffic access).operations)) := rfl
  rw [average, value_bytes, value_operations, Reading.toCount, Reading.toCount]
  split
  · rename_i none
    rw [none, Nat.div_zero]
  · rfl

/-- The counters account exactly, whatever has been done to an empty ledger. A run of changes breaks
off only if something that has been added up since it was last cleared does not fit into a word.
Else each change is refused just if there is a reason to, and a raw counter shows what has been
added to it since it was last cleared, in the order in which it was added. A further change that is
refused leaves the ledger as it is, and any other one is made, unless what it adds up does not fit.
An access has the effect of its three parts, in every order of them. The totals and the averages are
those of the raw counters, as far as they fit. -/
theorem makeAll_accounts (changes : List (Change τ)) :
    (makeAll changes empty = .error .overflow ∧ ∃ earlier counter, earlier <+: changes ∧
      ¬counter.isDerived ∧
      ¬((Change.additions counter earlier).foldl .plus counter.blank).Fits) ∨
    ∃ ledger, makeAll changes empty = .ok (changes.map Change.result, ledger) ∧
      (∀ counter, ¬counter.isDerived → ledger.value counter =
        (Change.additions counter changes).foldl .plus counter.blank) ∧
      (∀ change : Change τ, ∀ fault, change.refusal? = some fault →
        change.make ledger = .ok (.error (.argument fault), ledger)) ∧
      (∀ change : Change τ, change.refusal? = none →
        (∃ after, change.make ledger = .ok (.ok (), after)) ∨
        change.make ledger = .error .overflow ∧ ∃ counter, ¬counter.isDerived ∧
          ¬(change.effect counter (ledger.value counter)).Fits) ∧
      (∀ access time bytes, ∀ parts : List (Change τ),
        parts.Perm (Change.parts access time bytes) →
          makeAll parts ledger = ((Change.record access time bytes).make ledger).map fun done =>
            (parts.map fun _ => .ok (), done.2)) ∧
      ledger.valueInWords .totalBytes = (Word.hold
        (Access.all.map fun access => (ledger.value (.bytes access)).toCount).sum).map .count ∧
      ledger.valueInWords .totalOperations = (Word.hold
        (Access.all.map fun access => (ledger.value (.operations access)).toCount).sum).map
          .count ∧
      ∀ access, ledger.valueInWords (.averageBytes access) = .ok (.count
        (if (ledger.value (.operations access)).toCount = 0 then 0
          else (ledger.value (.bytes access)).toCount /
            (ledger.value (.operations access)).toCount)) := by
  rcases makeAll_cases fits_empty changes with ⟨ledger, ended, fits, values⟩ |
    ⟨broken, earlier, counter, initial, raw, large⟩
  · refine .inr ⟨ledger, ended, fun counter raw => ?_, fun _ _ reason => make_refused reason ledger,
      fun change accepted => ?_, fun _ _ _ _ arranged => makeAll_parts fits arranged,
      totalBytes_eq ledger, totalOperations_eq ledger, averageBytes_eq ledger⟩
    · rw [values counter raw, value_empty raw, shown_eq]
    · exact (makes_of_accepted accepted fits).imp_left fun ⟨after, made, _⟩ => ⟨after, made⟩
  · rw [value_empty raw, shown_eq] at large
    exact .inl ⟨broken, earlier, counter, initial, raw, large⟩

end AccessLedger

end MergeCost
