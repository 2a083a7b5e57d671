import MergeCost.Proofs.Index.Remarks

/-!
Adaptive merging once all entries are hot. A request for everything moves whatever is still cold,
and from then on requests go through to the wrapped index: no share of them can be cold, whatever
fraction has been carried over, so that the wrapped index serves them as if it were alone.
-/

namespace MergeCost

open Sim

variable {τ : Type}

namespace Call

variable [Scalar τ]

end Call

variable [Scalar τ]

theorem Index.run_append {index between after : Index τ} {first second : List (Call τ)}
    {earlier later : List (Except (Error τ) τ)} (started : index.run first = .ok (earlier, between))
    (ended : between.run second = .ok (later, after)) :
    index.run (first ++ second) = .ok (earlier ++ later, after) := by
  induction first generalizing index earlier with
  | nil =>
      cases started
      exact ended
  | cons call rest ih =>
      obtain ⟨⟨result, next⟩, called, started⟩ := Except.exists_of_bind started
      obtain ⟨⟨results, last⟩, ran, listed⟩ := Except.exists_of_bind started
      cases listed
      exact run_of_call called (ih ran)

/-! Requests for nothing -/

namespace Merging

variable {depth : Nat} {world before between after : World τ (Merging τ (Stack τ depth))}
  {calls more : List (Call τ)}

/-- The wrapped index has been left as these calls leave it by themselves, and nothing on the cold
side has changed, nor what has been recorded of it. -/
structure PassesOn (before : World τ (Merging τ (Stack τ depth))) (calls : List (Call τ))
    (after : World τ (Merging τ (Stack τ depth))) : Prop where
  passed : ∃ answers, Index.run ⟨depth, before.store.wrapped, before.machine⟩ calls =
    .ok (answers, ⟨depth, after.store.wrapped, after.machine⟩)
  cold_eq : after.store.cold = before.store.cold
  invalidation_eq : after.store.ledger.invalidation = before.store.ledger.invalidation
  loading_eq : after.store.ledger.loading = before.store.ledger.loading

theorem PassesOn.nothing (world : World τ (Merging τ (Stack τ depth))) :
    PassesOn world [] world :=
  ⟨⟨[], rfl⟩, rfl, rfl, rfl⟩

theorem PassesOn.single {call : Call τ} {merging : Merging τ (Stack τ depth)}
    {wrapped : Stack τ depth} {machine finish : Machine τ} {result : Except (Error τ) τ}
    (served : outcome call.action ⟨merging.wrapped, machine⟩ = .ok (result, ⟨wrapped, finish⟩)) :
    PassesOn ⟨merging, machine⟩ [call] ⟨{ merging with wrapped }, finish⟩ :=
  ⟨⟨[result], Index.run_of_call (Index.call_of_outcome served) rfl⟩, rfl, rfl, rfl⟩

theorem PassesOn.trans (start : PassesOn before calls between)
    (rest : PassesOn between more after) : PassesOn before (calls ++ more) after where
  passed := by
    obtain ⟨earlier, started⟩ := start.passed
    obtain ⟨later, ended⟩ := rest.passed
    exact ⟨earlier ++ later, Index.run_append started ended⟩
  cold_eq := rest.cold_eq.trans start.cold_eq
  invalidation_eq := rest.invalidation_eq.trans start.invalidation_eq
  loading_eq := rest.loading_eq.trans start.loading_eq

end Merging

end MergeCost
