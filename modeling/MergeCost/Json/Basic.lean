import MergeCost.Decimal.Numeral

/-!
JSON values, and the causes for which a text is refused as one or as a record of a certain kind.
-/

namespace MergeCost

/-- A JSON value as it is written. A text is `none` if it escapes half of a surrogate pair: such a
text is well-formed, but stands for no string. -/
inductive Json where
  | null
  | bool (value : Bool)
  | number (numeral : Numeral)
  | string (text : Option String)
  | array (items : List Json)
  | object (members : List (Option String × Json))
deriving Repr

namespace Json

def ofText (text : String) : Json := .string (some text)

def ofNat (count : Nat) : Json := .number (.ofNat count)

def ofMembers (members : List (String × Json)) : Json :=
  .object (members.map fun member => (some member.1, member.2))

/-- Why a text was not read. -/
inductive Fault where
  | malformed
  | unexpected (wanted : String)
  | missing (field : String)
  | repeated (field : String)
  | surplusItems
  | outOfRange
  | loneSurrogate
  | nestedTooDeep
  | unknownKind (name : String)
deriving Repr, DecidableEq

def Fault.message : Fault → String
  | .malformed => "malformed text"
  | .unexpected wanted => "expected " ++ wanted
  | .missing field => "missing field " ++ field
  | .repeated field => "duplicate field " ++ field
  | .surplusItems => "more items than fields"
  | .outOfRange => "number out of range"
  | .loneSurrogate => "lone surrogate in a string"
  | .nestedTooDeep => "recursion limit exceeded"
  | .unknownKind name => "unknown variant " ++ name

end Json

end MergeCost
