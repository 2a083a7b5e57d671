import MergeCost.Json.Number

/-!
Reading JSON values as counts, doubles, texts and records.

A record is an object with a member for each of its fields, or an array of their values in order.
Members that belong to no field are skipped without a look at what they hold.
-/

namespace MergeCost.Json

def toCount : Json → Except Fault Nat
  | .number numeral =>
      match numeral.toCount? with
      | some count => .ok count
      | none => .error (.unexpected "a count")
  | _ => .error (.unexpected "a count")

def toDouble : Json → Except Fault Float
  | .number numeral =>
      match numeral.toDouble? with
      | some value => .ok value
      | none => .error .outOfRange
  | _ => .error (.unexpected "a number")

def toText : Json → Except Fault String
  | .string (some text) => .ok text
  | .string none => .error .loneSurrogate
  | _ => .error (.unexpected "a string")

/-- A field of a record: the name that is written, and other names that are read as well. -/
structure Field where
  name : String
  aliases : List String
deriving Repr, DecidableEq

def Field.accepts (field : Field) (key : String) : Bool :=
  field.name = key || field.aliases.contains key

/-- The values of a record by the names of their fields. -/
abbrev Record := List (String × Json)

/-- Sorts the members of an object into the fields of a record. -/
def collect (fields : List Field) :
    List (Option String × Json) → Record → Except Fault Record
  | [], found => .ok found
  | (none, _) :: _, _ => .error .loneSurrogate
  | (some key, value) :: members, found =>
      match fields.find? (Field.accepts · key) with
      | none => collect fields members found
      | some field =>
          if (found.lookup field.name).isSome then .error (.repeated field.name)
          else collect fields members (found ++ [(field.name, value)])

def toRecord (fields : List Field) : Json → Except Fault Record
  | .object members => collect fields members []
  | .array items =>
      if fields.length < items.length then .error .surplusItems
      else .ok ((fields.map Field.name).zip items)
  | _ => .error (.unexpected "a record")

namespace Record

/-- The value of a field, or a default for a field that is missing. -/
def field {α : Type} (record : Record) (name : String) (default : α)
    (read : Json → Except Fault α) : Except Fault α :=
  match record.lookup name with
  | some value => read value
  | none => .ok default

/-- The value of a field that has to be there. -/
def required {α : Type} (record : Record) (name : String)
    (read : Json → Except Fault α) : Except Fault α :=
  match record.lookup name with
  | some value => read value
  | none => .error (.missing name)

end Record

/-- How many containers may lie within each other. -/
def depthLimit : Nat := 127

mutual

/-- Whether every part of a value can be read: its texts stand for strings, its numbers for counts
or doubles, and its containers do not lie too deep within each other. -/
def check (room : Nat) : Json → Except Fault Unit
  | .number numeral =>
      if numeral.toCount?.isSome || numeral.toDouble?.isSome then .ok () else .error .outOfRange
  | .string none => .error .loneSurrogate
  | .array items => match room with
      | 0 => .error .nestedTooDeep
      | room + 1 => checkItems room items
  | .object members => match room with
      | 0 => .error .nestedTooDeep
      | room + 1 => checkMembers room members
  | _ => .ok ()

def checkItems (room : Nat) : List Json → Except Fault Unit
  | [] => .ok ()
  | item :: items => do
      check room item
      checkItems room items

def checkMembers (room : Nat) : List (Option String × Json) → Except Fault Unit
  | [] => .ok ()
  | (none, _) :: _ => .error .loneSurrogate
  | (some _, value) :: members => do
      check room value
      checkMembers room members

end

end MergeCost.Json
