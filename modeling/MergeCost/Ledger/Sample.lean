import MergeCost.Ledger.Reading
import MergeCost.Json.Parser
import MergeCost.Json.Printer

/-!
Reports of counters: each reading with the name of its counter, written as JSON and read back.
-/

namespace MergeCost

structure Sample (τ : Type) where
  name : String
  value : Reading τ
deriving Repr

namespace Sample

def fields : List Json.Field := [⟨"name", []⟩, ⟨"value", []⟩]

def toJson (sample : Sample Float) : Json :=
  .ofMembers [("name", .ofText sample.name), ("value", sample.value.toJson)]

def ofJson (value : Json) : Except Json.Fault (Sample Float) := do
  let record ← value.toRecord fields
  let name ← record.required "name" Json.toText
  let reading ← record.required "value" Reading.ofJson
  return ⟨name, reading⟩

def parse (text : String) : Except Json.Fault (Sample Float) := do
  ofJson (← Json.parse text)

def text (sample : Sample Float) : String := sample.toJson.compact

/-- A report as one line of JSON. -/
def report (samples : List (Sample Float)) : String :=
  (Json.array (samples.map toJson)).compact

def parseReport (text : String) : Except Json.Fault (List (Sample Float)) := do
  match ← Json.parse text with
  | .array items => items.mapM ofJson
  | _ => throw (.unexpected "a list of samples")

end Sample

end MergeCost
