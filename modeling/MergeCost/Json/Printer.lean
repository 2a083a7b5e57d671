import MergeCost.Json.Token

/-!
Writing a JSON value, without blanks or indented by its depth.
-/

namespace MergeCost.Json

mutual

/-- The tokens of a value, in order. -/
def toTokens : Json → List Token
  | .null => [.null]
  | .bool value => [.bool value]
  | .number numeral => [.number numeral]
  | .string text => [.string text]
  | .array [] => [.openArray, .closeArray]
  | .array (item :: items) => .openArray :: (toTokens item ++ itemTokens items)
  | .object [] => [.openObject, .closeObject]
  | .object ((key, value) :: members) =>
      .openObject :: .string key :: .colon :: (toTokens value ++ memberTokens members)

/-- The items after the first, and the end of their array. -/
def itemTokens : List Json → List Token
  | [] => [.closeArray]
  | item :: items => .comma :: (toTokens item ++ itemTokens items)

/-- The members after the first, and the end of their object. -/
def memberTokens : List (Option String × Json) → List Token
  | [] => [.closeObject]
  | (key, value) :: members =>
      .comma :: .string key :: .colon :: (toTokens value ++ memberTokens members)

end

/-- The text of a value without blanks. -/
def compact (value : Json) : String := String.join (value.toTokens.map Token.text)

def newline (depth : Nat) : String := "\n" ++ String.ofList (List.replicate (2 * depth) ' ')

mutual

/-- The text of a value with each item and member on a line of its own, two blanks deeper than
its container. -/
def indented (depth : Nat) : Json → String
  | .null => Token.text .null
  | .bool value => Token.text (.bool value)
  | .number numeral => Token.text (.number numeral)
  | .string text => Token.text (.string text)
  | .array [] => "[]"
  | .array (item :: items) =>
      "[" ++ newline (depth + 1) ++ indented (depth + 1) item ++ indentedItems depth items
  | .object [] => "\x7b\x7d"
  | .object ((key, value) :: members) =>
      "\x7b" ++ newline (depth + 1) ++ Token.text (.string key) ++ ": "
        ++ indented (depth + 1) value ++ indentedMembers depth members

def indentedItems (depth : Nat) : List Json → String
  | [] => newline depth ++ "]"
  | item :: items =>
      "," ++ newline (depth + 1) ++ indented (depth + 1) item ++ indentedItems depth items

def indentedMembers (depth : Nat) : List (Option String × Json) → String
  | [] => newline depth ++ "\x7d"
  | (key, value) :: members =>
      "," ++ newline (depth + 1) ++ Token.text (.string key) ++ ": "
        ++ indented (depth + 1) value ++ indentedMembers depth members

end

/-- The text of a value on several lines, without a line end after the last. -/
def pretty (value : Json) : String := indented 0 value

end MergeCost.Json
