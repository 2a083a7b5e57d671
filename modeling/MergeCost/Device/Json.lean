import MergeCost.Device.Basic
import MergeCost.Json.Parser
import MergeCost.Json.Printer
import MergeCost.Json.Record

/-!
Device profiles as JSON. The member `type` tells the kind of device; it may stand anywhere, and the
other members are the fields of the profile, with defaults for those that are missing. An array
starts with the kind.
-/

namespace MergeCost

namespace Ssd.Profile

def fields : List Json.Field :=
  ["name", "page_size", "block_size", "read_random_time", "write_random_time", "read_seq_time",
    "write_seq_time", "erase_time", "seq_op_threshold"].map (⟨·, []⟩)

def members (profile : Profile Float) : List (String × Json) :=
  [("name", .ofText profile.name), ("page_size", .ofNat profile.pageSize),
    ("block_size", .ofNat profile.blockSize), ("read_random_time", .ofDouble profile.randomRead),
    ("write_random_time", .ofDouble profile.randomWrite),
    ("read_seq_time", .ofDouble profile.sequentialRead),
    ("write_seq_time", .ofDouble profile.sequentialWrite),
    ("erase_time", .ofDouble profile.erase),
    ("seq_op_threshold", .ofNat profile.sequentialThreshold)]

def ofRecord (record : Json.Record) : Except Json.Fault (Profile Float) := do
  let name ← record.field "name" standard.name Json.toText
  let pageSize ← record.field "page_size" standard.pageSize Json.toCount
  let blockSize ← record.field "block_size" standard.blockSize Json.toCount
  let randomRead ← record.field "read_random_time" standard.randomRead Json.toDouble
  let randomWrite ← record.field "write_random_time" standard.randomWrite Json.toDouble
  let sequentialRead ← record.field "read_seq_time" standard.sequentialRead Json.toDouble
  let sequentialWrite ← record.field "write_seq_time" standard.sequentialWrite Json.toDouble
  let erase ← record.field "erase_time" standard.erase Json.toDouble
  let sequentialThreshold ←
    record.field "seq_op_threshold" standard.sequentialThreshold Json.toCount
  return {
    name, pageSize, blockSize, randomRead, randomWrite, sequentialRead, sequentialWrite, erase,
    sequentialThreshold }

end Ssd.Profile

namespace Pcm.Profile

def fields : List Json.Field :=
  ["name", "page_size", "read_time", "write_time"].map (⟨·, []⟩)

def members (profile : Profile Float) : List (String × Json) :=
  [("name", .ofText profile.name), ("page_size", .ofNat profile.pageSize),
    ("read_time", .ofDouble profile.readTime), ("write_time", .ofDouble profile.writeTime)]

def ofRecord (record : Json.Record) : Except Json.Fault (Profile Float) := do
  let name ← record.field "name" standard.name Json.toText
  let pageSize ← record.field "page_size" standard.pageSize Json.toCount
  let readTime ← record.field "read_time" standard.readTime Json.toDouble
  let writeTime ← record.field "write_time" standard.writeTime Json.toDouble
  return { name, pageSize, readTime, writeTime }

end Pcm.Profile

inductive DeviceKind where
  | ssd
  | pcm
deriving Repr, DecidableEq

namespace DeviceKind

/-- The member of an object that tells the kind. -/
def key : String := "type"

def name : DeviceKind → String
  | ssd => "ssd"
  | pcm => "pcm"

def ofJson (value : Json) : Except Json.Fault DeviceKind := do
  let found ← value.toText
  if found = ssd.name then return ssd
  else if found = pcm.name then return pcm
  else throw (.unknownKind found)

/-- Whether a member tells the kind. -/
def isTag (tagged : Option String × Json) : Bool := tagged.1 = some key

end DeviceKind

namespace DeviceProfile

def kind {τ : Type} : DeviceProfile τ → DeviceKind
  | ssd _ => .ssd
  | pcm _ => .pcm

def toJson (profile : DeviceProfile Float) : Json :=
  .ofMembers ((DeviceKind.key, .ofText profile.kind.name) ::
    match profile with
    | ssd profile => profile.members
    | pcm profile => profile.members)

/-- Reads the fields of a profile of a known kind. -/
def ofFields (kind : DeviceKind) (value : Json) : Except Json.Fault (DeviceProfile Float) :=
  match kind with
  | .ssd => do return ssd (← Ssd.Profile.ofRecord (← value.toRecord Ssd.Profile.fields))
  | .pcm => do return pcm (← Pcm.Profile.ofRecord (← value.toRecord Pcm.Profile.fields))

/-- Reads a profile. Unlike elsewhere, members that belong to no field have to be readable too,
with room for so many containers within each other. -/
def ofJson (room : Nat) (value : Json) : Except Json.Fault (DeviceProfile Float) := do
  value.check room
  match value with
  | .object members =>
      match members.partition DeviceKind.isTag with
      | ([], _) => throw (.missing DeviceKind.key)
      | ([(_, tag)], others) => ofFields (← DeviceKind.ofJson tag) (.object others)
      | _ => throw (.repeated DeviceKind.key)
  | .array (tag :: items) => ofFields (← DeviceKind.ofJson tag) (.array items)
  | .array [] => throw (.missing DeviceKind.key)
  | _ => throw (.unexpected "a device profile")

def parse (text : String) : Except (Error Float) (DeviceProfile Float) :=
  (Json.parse text >>= ofJson Json.depthLimit).mapError .serialization

end DeviceProfile

end MergeCost
