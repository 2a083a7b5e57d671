import MergeCost.Json.Token

/-!
Reading a JSON value: a machine that takes one token at a time and keeps the containers that are
still open.
-/

namespace MergeCost.Json

/-- A container whose end has not been read, with its items or members so far, the last one
first. -/
inductive Frame where
  | array (items : List Json)
  | object (members : List (Option String × Json)) (key : Option String)

/-- What has been read and what has to follow: a value, the first item or end of an array, the
first member or end of an object, a member, the colon after a key, or what follows a finished
value. -/
inductive State where
  | value (frames : List Frame)
  | firstItem (frames : List Frame)
  | firstMember (frames : List Frame)
  | member (members : List (Option String × Json)) (frames : List Frame)
  | colon (members : List (Option String × Json)) (key : Option String) (frames : List Frame)
  | done (value : Json) (frames : List Frame)

namespace State

/-- Takes the first token of a value. -/
def start (frames : List Frame) : Token → Option State
  | .null => some (.done .null frames)
  | .bool truth => some (.done (.bool truth) frames)
  | .number numeral => some (.done (.number numeral) frames)
  | .string text => some (.done (.string text) frames)
  | .openArray => some (.firstItem frames)
  | .openObject => some (.firstMember frames)
  | _ => none

def step : State → Token → Option State
  | .value frames, token => start frames token
  | .firstItem frames, .closeArray => some (.done (.array []) frames)
  | .firstItem frames, token => start (.array [] :: frames) token
  | .firstMember frames, .closeObject => some (.done (.object []) frames)
  | .firstMember frames, .string key => some (.colon [] key frames)
  | .member members frames, .string key => some (.colon members key frames)
  | .colon members key frames, .colon => some (.value (.object members key :: frames))
  | .done read (.array items :: frames), .comma => some (.value (.array (read :: items) :: frames))
  | .done read (.array items :: frames), .closeArray =>
      some (.done (.array (read :: items).reverse) frames)
  | .done read (.object members key :: frames), .comma =>
      some (.member ((key, read) :: members) frames)
  | .done read (.object members key :: frames), .closeObject =>
      some (.done (.object ((key, read) :: members).reverse) frames)
  | _, _ => none

/-- The value that has been read, if no container is still open. -/
def result? : State → Option Json
  | .done read [] => some read
  | _ => none

end State

def ofTokens? (tokens : List Token) : Option Json :=
  (tokens.foldlM State.step (.value [])).bind State.result?

/-- Reads a text that holds one value and blanks around it. -/
def parse (text : String) : Except Fault Json :=
  match (tokens text.toList).bind ofTokens? with
  | some value => .ok value
  | none => .error .malformed

end MergeCost.Json
