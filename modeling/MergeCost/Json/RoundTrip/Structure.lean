import MergeCost.Json.Parser
import MergeCost.Json.Printer

/-!
A value is read back from its tokens. The machine goes through the tokens of a value and ends with
the value done, whatever containers are open around it.
-/

namespace MergeCost.Json

theorem foldlM_cons_some {state next : State} {token : Token}
    (stepped : state.step token = some next) (rest : List Token) :
    (token :: rest).foldlM State.step state = rest.foldlM State.step next := by
  simp [List.foldlM_cons, stepped]

/-- No value starts with the end of an array, so the first item is read like any other value. -/
theorem exists_toTokens_eq_cons (value : Json) : ∃ token rest, value.toTokens = token :: rest ∧
    ∀ frames, State.step (.firstItem frames) token =
      State.step (.value (.array [] :: frames)) token := by
  cases value with
  | array items => cases items <;> exact ⟨_, _, rfl, fun _ => rfl⟩
  | object members => cases members <;> exact ⟨_, _, rfl, fun _ => rfl⟩
  | _ => exact ⟨_, _, rfl, fun _ => rfl⟩

theorem foldlM_firstItem (value : Json) (frames : List Frame) (rest : List Token) :
    (value.toTokens ++ rest).foldlM State.step (.firstItem frames) =
      (value.toTokens ++ rest).foldlM State.step (.value (.array [] :: frames)) := by
  obtain ⟨token, more, tokens, same⟩ := exists_toTokens_eq_cons value
  simp [tokens, List.foldlM_cons, same]

mutual

theorem foldlM_toTokens (value : Json) (frames : List Frame) :
    value.toTokens.foldlM State.step (.value frames) = some (.done value frames) := by
  match value with
  | .null => rfl
  | .bool _ => rfl
  | .number _ => rfl
  | .string _ => rfl
  | .array [] => rfl
  | .array (item :: items) =>
      rw [toTokens, foldlM_cons_some rfl, foldlM_firstItem, List.foldlM_append,
        foldlM_toTokens item]
      exact foldlM_itemTokens items item [] frames
  | .object [] => rfl
  | .object ((key, value) :: members) =>
      rw [toTokens, foldlM_cons_some rfl, foldlM_cons_some rfl, foldlM_cons_some rfl,
        List.foldlM_append, foldlM_toTokens value]
      exact foldlM_memberTokens members key value [] frames

theorem foldlM_itemTokens (items : List Json) (last : Json) (before : List Json)
    (frames : List Frame) :
    (itemTokens items).foldlM State.step (.done last (.array before :: frames)) =
      some (.done (.array ((last :: before).reverse ++ items)) frames) := by
  match items with
  | [] => simp [itemTokens, State.step]
  | item :: items =>
      rw [itemTokens, foldlM_cons_some rfl, List.foldlM_append, foldlM_toTokens item]
      refine (foldlM_itemTokens items item (last :: before) frames).trans ?_
      simp

theorem foldlM_memberTokens (members : List (Option String × Json)) (key : Option String)
    (last : Json) (before : List (Option String × Json)) (frames : List Frame) :
    (memberTokens members).foldlM State.step (.done last (.object before key :: frames)) =
      some (.done (.object (((key, last) :: before).reverse ++ members)) frames) := by
  match members with
  | [] => simp [memberTokens, State.step]
  | (next, value) :: members =>
      rw [memberTokens, foldlM_cons_some rfl, foldlM_cons_some rfl, foldlM_cons_some rfl,
        List.foldlM_append, foldlM_toTokens value]
      refine (foldlM_memberTokens members next value ((key, last) :: before) frames).trans ?_
      simp

end

theorem ofTokens?_toTokens (value : Json) : ofTokens? value.toTokens = some value := by
  simp [ofTokens?, foldlM_toTokens, State.result?]

end MergeCost.Json
