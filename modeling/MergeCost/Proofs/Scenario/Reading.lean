import MergeCost.Proofs.Json.Listing
import MergeCost.Scenario.Json

/-!
Scenarios read back from JSON. What a text lists of a scenario is read as it was written, in
whatever order it is listed, and everything else is that of the standard scenario. Only the kind of
the device and the parts of a policy have to be there.
-/

namespace MergeCost

open Json
open scoped List

namespace Ssd.Profile

variable {profile : Profile Float} {record : List (String × Json)}

/-- Whether the numbers of a profile are read as they are written. -/
structure Plain (profile : Profile Float) : Prop where
  pageSize : profile.pageSize ≤ maxCount
  blockSize : profile.blockSize ≤ maxCount
  randomRead : Numeral.ReadsBack profile.randomRead
  randomWrite : Numeral.ReadsBack profile.randomWrite
  sequentialRead : Numeral.ReadsBack profile.sequentialRead
  sequentialWrite : Numeral.ReadsBack profile.sequentialWrite
  erase : Numeral.ReadsBack profile.erase
  sequentialThreshold : profile.sequentialThreshold ≤ maxCount

/-- The listed fields of a profile, and the others as they are by default. -/
def listed (profile : Profile Float) (names : List String) : Profile Float where
  name := if "name" ∈ names then profile.name else standard.name
  pageSize := if "page_size" ∈ names then profile.pageSize else standard.pageSize
  blockSize := if "block_size" ∈ names then profile.blockSize else standard.blockSize
  randomRead := if "read_random_time" ∈ names then profile.randomRead else standard.randomRead
  randomWrite := if "write_random_time" ∈ names then profile.randomWrite else standard.randomWrite
  sequentialRead :=
    if "read_seq_time" ∈ names then profile.sequentialRead else standard.sequentialRead
  sequentialWrite :=
    if "write_seq_time" ∈ names then profile.sequentialWrite else standard.sequentialWrite
  erase := if "erase_time" ∈ names then profile.erase else standard.erase
  sequentialThreshold :=
    if "seq_op_threshold" ∈ names then profile.sequentialThreshold else standard.sequentialThreshold

theorem named (profile : Profile Float) : Named fields profile.members :=
  ⟨rfl, by decide, by decide⟩

theorem readable_members (plain : profile.Plain) :
    ∀ member ∈ profile.members, member.2.Readable := by
  simp only [members, List.forall_mem_cons]
  exact ⟨readable_ofText _, readable_ofNat plain.pageSize, readable_ofNat plain.blockSize,
    readable_ofDouble plain.randomRead, readable_ofDouble plain.randomWrite,
    readable_ofDouble plain.sequentialRead, readable_ofDouble plain.sequentialWrite,
    readable_ofDouble plain.erase, readable_ofNat plain.sequentialThreshold, nofun⟩

theorem ofRecord_listed (plain : profile.Plain) (listed : record <+~ profile.members) :
    ofRecord record = .ok (profile.listed (record.map Prod.fst)) := by
  rw [ofRecord, profile.named.bind_field listed rfl (toText_ofText _),
    profile.named.bind_field listed rfl (toCount_ofNat plain.pageSize),
    profile.named.bind_field listed rfl (toCount_ofNat plain.blockSize),
    profile.named.bind_field listed rfl (toDouble_ofDouble plain.randomRead),
    profile.named.bind_field listed rfl (toDouble_ofDouble plain.randomWrite),
    profile.named.bind_field listed rfl (toDouble_ofDouble plain.sequentialRead),
    profile.named.bind_field listed rfl (toDouble_ofDouble plain.sequentialWrite),
    profile.named.bind_field listed rfl (toDouble_ofDouble plain.erase),
    profile.named.bind_field listed rfl (toCount_ofNat plain.sequentialThreshold)]
  rfl

end Ssd.Profile

namespace Pcm.Profile

variable {profile : Profile Float} {record : List (String × Json)}

structure Plain (profile : Profile Float) : Prop where
  pageSize : profile.pageSize ≤ maxCount
  readTime : Numeral.ReadsBack profile.readTime
  writeTime : Numeral.ReadsBack profile.writeTime

def listed (profile : Profile Float) (names : List String) : Profile Float where
  name := if "name" ∈ names then profile.name else standard.name
  pageSize := if "page_size" ∈ names then profile.pageSize else standard.pageSize
  readTime := if "read_time" ∈ names then profile.readTime else standard.readTime
  writeTime := if "write_time" ∈ names then profile.writeTime else standard.writeTime

theorem named (profile : Profile Float) : Named fields profile.members :=
  ⟨rfl, by decide, by decide⟩

theorem readable_members (plain : profile.Plain) :
    ∀ member ∈ profile.members, member.2.Readable := by
  simp only [members, List.forall_mem_cons]
  exact ⟨readable_ofText _, readable_ofNat plain.pageSize, readable_ofDouble plain.readTime,
    readable_ofDouble plain.writeTime, nofun⟩

theorem ofRecord_listed (plain : profile.Plain) (listed : record <+~ profile.members) :
    ofRecord record = .ok (profile.listed (record.map Prod.fst)) := by
  rw [ofRecord, profile.named.bind_field listed rfl (toText_ofText _),
    profile.named.bind_field listed rfl (toCount_ofNat plain.pageSize),
    profile.named.bind_field listed rfl (toDouble_ofDouble plain.readTime),
    profile.named.bind_field listed rfl (toDouble_ofDouble plain.writeTime)]
  rfl

end Pcm.Profile

namespace ReorganizationPolicy

variable {policy : ReorganizationPolicy Float} {record : List (String × Json)}

structure Plain (policy : ReorganizationPolicy Float) : Prop where
  maxBlocks : policy.maxBlocks ≤ maxCount
  triggerBlocks : policy.triggerBlocks ≤ maxCount
  usageThreshold : Numeral.ReadsBack policy.usageThreshold

def members (policy : ReorganizationPolicy Float) : List (String × Json) :=
  [("reorganization_max_blocks", .ofNat policy.maxBlocks),
    ("reorganization_blocks_threshold", .ofNat policy.triggerBlocks),
    ("leb_usage_threshold", .ofDouble policy.usageThreshold)]

theorem named (policy : ReorganizationPolicy Float) : Named fields policy.members :=
  ⟨rfl, by decide, by decide⟩

theorem readable_members (plain : policy.Plain) : ∀ member ∈ policy.members, member.2.Readable := by
  simp only [members, List.forall_mem_cons]
  exact ⟨readable_ofNat plain.maxBlocks, readable_ofNat plain.triggerBlocks,
    readable_ofDouble plain.usageThreshold, nofun⟩

theorem ofJson_eq (plain : policy.Plain) (listed : record <+~ policy.members) :
    ofJson (.ofMembers record) =
      if "reorganization_max_blocks" ∈ record.map Prod.fst then
        if "reorganization_blocks_threshold" ∈ record.map Prod.fst then
          if "leb_usage_threshold" ∈ record.map Prod.fst then .ok policy
          else .error (.missing "leb_usage_threshold")
        else .error (.missing "reorganization_blocks_threshold")
      else .error (.missing "reorganization_max_blocks") := by
  rw [ofJson, policy.named.bind_toRecord listed,
    policy.named.bind_required listed rfl (toCount_ofNat plain.maxBlocks),
    policy.named.bind_required listed rfl (toCount_ofNat plain.triggerBlocks),
    policy.named.bind_required listed rfl (toDouble_ofDouble plain.usageThreshold)]
  rfl

/-- A policy is read if it is listed as a whole, in any order. -/
theorem ofJson_ordered (plain : policy.Plain) (order : record ~ policy.members) :
    ofJson (.ofMembers record) = .ok policy := by
  have all : ∀ name ∈ policy.members.map Prod.fst, name ∈ record.map Prod.fst :=
    fun name inside => (order.map Prod.fst).mem_iff.mpr inside
  simp only [policy.named.names_eq, fields, List.map_cons, List.forall_mem_cons] at all
  rw [ofJson_eq plain order.subperm, if_pos all.1, if_pos all.2.1, if_pos all.2.2.1]

theorem ofJson_incomplete (plain : policy.Plain) (listed : record <+~ policy.members)
    (incomplete : ∃ name ∈ policy.members.map Prod.fst, name ∉ record.map Prod.fst) :
    ∃ name, name ∉ record.map Prod.fst ∧ ofJson (.ofMembers record) = .error (.missing name) := by
  rw [ofJson_eq plain listed]
  by_cases maxBlocks : "reorganization_max_blocks" ∈ record.map Prod.fst
  · by_cases triggerBlocks : "reorganization_blocks_threshold" ∈ record.map Prod.fst
    · by_cases usageThreshold : "leb_usage_threshold" ∈ record.map Prod.fst
      · obtain ⟨name, among, absent⟩ := incomplete
        simp only [policy.named.names_eq, fields, List.map_cons, List.map_nil, List.mem_cons,
          List.not_mem_nil, or_false] at among
        rcases among with rfl | rfl | rfl <;> contradiction
      · exact ⟨_, usageThreshold,
          by rw [if_pos maxBlocks, if_pos triggerBlocks, if_neg usageThreshold]⟩
    · exact ⟨_, triggerBlocks, by rw [if_pos maxBlocks, if_neg triggerBlocks]⟩
  · exact ⟨_, maxBlocks, if_neg maxBlocks⟩

end ReorganizationPolicy

namespace DeviceProfile

variable {profile : DeviceProfile Float} {record memory : List (String × Json)}

def Plain : DeviceProfile Float → Prop
  | ssd profile => profile.Plain
  | pcm profile => profile.Plain

/-- The members of a profile besides the one that tells the kind. -/
def members : DeviceProfile Float → List (String × Json)
  | ssd profile => profile.members
  | pcm profile => profile.members

def tag (profile : DeviceProfile Float) : String × Json :=
  (DeviceKind.key, .ofText profile.kind.name)

def listed (profile : DeviceProfile Float) (names : List String) : DeviceProfile Float :=
  match profile with
  | ssd profile => ssd (profile.listed names)
  | pcm profile => pcm (profile.listed names)

theorem toJson_eq (profile : DeviceProfile Float) :
    profile.toJson = .ofMembers (profile.tag :: profile.members) := by
  cases profile <;> rfl

theorem listed_all (profile : DeviceProfile Float) :
    profile.listed (profile.members.map Prod.fst) = profile := by
  cases profile <;> rfl

theorem ofFields_listed (plain : profile.Plain) (listed : record <+~ profile.members) :
    ofFields profile.kind (.ofMembers record) = .ok (profile.listed (record.map Prod.fst)) := by
  cases profile with
  | ssd profile =>
      rw [kind, ofFields, profile.named.bind_toRecord listed,
        Ssd.Profile.ofRecord_listed plain listed]
      rfl
  | pcm profile =>
      rw [kind, ofFields, profile.named.bind_toRecord listed,
        Pcm.Profile.ofRecord_listed plain listed]
      rfl

theorem readable_members (plain : profile.Plain) :
    ∀ member ∈ profile.members, member.2.Readable := by
  cases profile with
  | ssd profile => exact Ssd.Profile.readable_members plain
  | pcm profile => exact Pcm.Profile.readable_members plain

/-- No field is named like the member that tells the kind. -/
theorem key_notMem (profile : DeviceProfile Float) :
    DeviceKind.key ∉ profile.members.map Prod.fst := by
  cases profile with
  | ssd profile =>
      rw [members, profile.named.names_eq]
      decide
  | pcm profile =>
      rw [members, profile.named.names_eq]
      decide

theorem not_isTag (listed : record <+~ profile.members) {member : String × Json}
    (inside : member ∈ record) : ¬DeviceKind.isTag (some member.1, member.2) := by
  simp only [DeviceKind.isTag, Option.some.injEq, decide_eq_true_eq]
  exact fun same => profile.key_notMem (same ▸ List.mem_map_of_mem (listed.subset inside))

/-- What tells the kind is found wherever it stands. -/
theorem partition_tagged (order : memory ~ profile.tag :: record)
    (listed : record <+~ profile.members) :
    ∃ others, others ~ record ∧
      (memory.map fun member => (some member.1, member.2)).partition DeviceKind.isTag =
        ([(some DeviceKind.key, .ofText profile.kind.name)],
          others.map fun member => (some member.1, member.2)) := by
  let isTag (member : String × Json) : Bool := DeviceKind.isTag (some member.1, member.2)
  have tags : memory.filter isTag = [profile.tag] := by
    rw [← List.perm_singleton]
    have only : (profile.tag :: record).filter isTag = [profile.tag] := by
      rw [List.filter_cons_of_pos rfl, List.filter_eq_nil_iff.mpr fun _ => not_isTag listed]
    exact only ▸ order.filter isTag
  have others : memory.filter (not ∘ isTag) ~ record := by
    have only : (profile.tag :: record).filter (not ∘ isTag) = record := by
      rw [List.filter_cons_of_neg Bool.false_ne_true, List.filter_eq_self]
      intro member inside
      simpa [isTag] using not_isTag listed inside
    exact only ▸ order.filter (not ∘ isTag)
  refine ⟨_, others, ?_⟩
  rw [List.partition_eq_filter_filter, List.filter_map, List.filter_map]
  change (List.map _ (memory.filter isTag), _) = _
  rw [tags]
  rfl

theorem ofJson_name (kind : DeviceKind) : DeviceKind.ofJson (.ofText kind.name) = .ok kind := by
  cases kind <;> rfl

theorem listed_congr (profile : DeviceProfile Float) {first second : List String}
    (same : first ~ second) : profile.listed first = profile.listed second := by
  cases profile with
  | ssd profile => simp only [listed, Ssd.Profile.listed, same.mem_iff]
  | pcm profile => simp only [listed, Pcm.Profile.listed, same.mem_iff]

theorem readable_listed (plain : profile.Plain) (listed : record <+~ profile.members) :
    ∀ member ∈ record, member.2.Readable :=
  fun member inside => readable_members plain member (listed.subset inside)

theorem readable_tagged (plain : profile.Plain) (order : memory ~ profile.tag :: record)
    (listed : record <+~ profile.members) : ∀ member ∈ memory, member.2.Readable := by
  intro member inside
  rcases List.mem_cons.mp (order.mem_iff.mp inside) with rfl | inside
  · exact readable_ofText _
  · exact readable_listed plain listed member inside

theorem ofJson_eq (readable : ∀ member ∈ memory, member.2.Readable) (room : Nat) :
    ofJson (room + 1) (.ofMembers memory) =
      match (memory.map fun member => (some member.1, member.2)).partition DeviceKind.isTag with
      | ([], _) => .error (.missing DeviceKind.key)
      | ([(_, tag)], others) => DeviceKind.ofJson tag >>= fun kind => ofFields kind (.object others)
      | _ => .error (.repeated DeviceKind.key) := by
  have checked := check_ofMembers room fun member inside => (readable member inside).checked room
  rw [ofJson.eq_def, checked]
  rfl

theorem ofJson_listed (plain : profile.Plain) (order : memory ~ profile.tag :: record)
    (listed : record <+~ profile.members) (room : Nat) :
    ofJson (room + 1) (.ofMembers memory) = .ok (profile.listed (record.map Prod.fst)) := by
  obtain ⟨others, same, parts⟩ := partition_tagged order listed
  rw [ofJson_eq (readable_tagged plain order listed), parts]
  change (DeviceKind.ofJson (.ofText profile.kind.name) >>=
    fun kind => ofFields kind (.ofMembers others)) = _
  rw [ofJson_name, ← profile.listed_congr (same.map Prod.fst)]
  exact ofFields_listed plain (same.subperm_right.mpr listed)

theorem ofJson_untagged (plain : profile.Plain) (listed : record <+~ profile.members) (room : Nat) :
    ofJson (room + 1) (.ofMembers record) = .error (.missing DeviceKind.key) := by
  have none :
      (record.map fun member => (some member.1, member.2)).filter DeviceKind.isTag = [] := by
    rw [List.filter_map, List.map_eq_nil_iff, List.filter_eq_nil_iff]
    exact fun _ => not_isTag listed
  rw [ofJson_eq (readable_listed plain listed), List.partition_eq_filter_filter, none]

end DeviceProfile

namespace Scenario

variable {scenario : Scenario Float} {record profile device : List (String × Json)}
  {memory lazy : Json}

/-- Whether the numbers of a scenario are read as they are written. -/
structure Plain (scenario : Scenario Float) : Prop where
  keySize : scenario.keySize ≤ maxCount
  dataSize : scenario.dataSize ≤ maxCount
  nodeSize : scenario.nodeSize ≤ maxCount
  partitionSize : scenario.partitionSize ≤ maxCount
  startingEntries : scenario.startingEntries ≤ maxCount
  memory : scenario.memory.Plain
  policy : ∀ policy, scenario.reorganization = some policy → policy.Plain

/-- The members of a scenario, with its device and its policy as they are written. -/
def members (scenario : Scenario Float) (memory lazy : Json) : List (String × Json) :=
  [("key_size", .ofNat scenario.keySize), ("data_size", .ofNat scenario.dataSize),
    ("node_size", .ofNat scenario.nodeSize), ("partition_size", .ofNat scenario.partitionSize),
    ("starting_entries", .ofNat scenario.startingEntries), ("memory", memory), ("lazy", lazy)]

/-- The ways to write a policy that may be missing. -/
inductive Writes : Option (ReorganizationPolicy Float) → Json → Prop
  | nothing : Writes none .null
  | ordered {policy : ReorganizationPolicy Float} {record : List (String × Json)}
      (order : record ~ policy.members) : Writes (some policy) (.ofMembers record)

/-- What is listed of a scenario, with its device as it is read, and the standard scenario for the
rest. -/
def listed (scenario : Scenario Float) (names : List String) (memory : DeviceProfile Float) :
    Scenario Float where
  keySize := if "key_size" ∈ names then scenario.keySize else standard.keySize
  dataSize := if "data_size" ∈ names then scenario.dataSize else standard.dataSize
  nodeSize := if "node_size" ∈ names then scenario.nodeSize else standard.nodeSize
  partitionSize :=
    if "partition_size" ∈ names then scenario.partitionSize else standard.partitionSize
  startingEntries :=
    if "starting_entries" ∈ names then scenario.startingEntries else standard.startingEntries
  memory := if "memory" ∈ names then memory else standard.memory
  reorganization := if "lazy" ∈ names then scenario.reorganization else standard.reorganization

theorem toJson_eq (scenario : Scenario Float) : scenario.toJson =
    .ofMembers (scenario.members scenario.memory.toJson
      (reorganizationToJson scenario.reorganization)) := rfl

theorem named (scenario : Scenario Float) (memory lazy : Json) :
    Named fields (scenario.members memory lazy) := ⟨rfl, by decide, by decide⟩

theorem Writes.sound {reorganization : Option (ReorganizationPolicy Float)}
    (writes : Writes reorganization lazy)
    (plain : ∀ policy, reorganization = some policy → policy.Plain) :
    .string none ∉ lazy.toTokens := by
  cases writes with
  | nothing => simp [toTokens]
  | ordered order =>
      exact sound_of_readable fun member inside =>
        ReorganizationPolicy.readable_members (plain _ rfl) member (order.mem_iff.mp inside)

theorem Writes.read {reorganization : Option (ReorganizationPolicy Float)}
    (writes : Writes reorganization lazy)
    (plain : ∀ policy, reorganization = some policy → policy.Plain) :
    reorganizationOfJson lazy = .ok reorganization := by
  cases writes with
  | nothing => rfl
  | ordered order =>
      exact congrArg (Except.map some) (ReorganizationPolicy.ofJson_ordered (plain _ rfl) order)

theorem writes_reorganizationToJson (reorganization : Option (ReorganizationPolicy Float)) :
    Writes reorganization (reorganizationToJson reorganization) := by
  cases reorganization with
  | none => exact .nothing
  | some policy => exact .ordered (.refl _)

section Reading

variable (plain : scenario.Plain) (listed : record <+~ scenario.members memory lazy)
include plain listed

theorem ofJson_eq : ofJson (.ofMembers record) = do
    let memory ← Record.field record "memory" standard.memory
      (DeviceProfile.ofJson (depthLimit - 1))
    let reorganization ← Record.field record "lazy" standard.reorganization reorganizationOfJson
    return { scenario.listed (record.map Prod.fst) memory with memory, reorganization } := by
  have named := scenario.named memory lazy
  rw [ofJson, named.bind_toRecord listed,
    named.bind_field listed rfl (toCount_ofNat plain.keySize),
    named.bind_field listed rfl (toCount_ofNat plain.dataSize),
    named.bind_field listed rfl (toCount_ofNat plain.nodeSize),
    named.bind_field listed rfl (toCount_ofNat plain.partitionSize),
    named.bind_field listed rfl (toCount_ofNat plain.startingEntries)]
  rfl

theorem ofJson_listed {device : DeviceProfile Float}
    (device_eq : DeviceProfile.ofJson (depthLimit - 1) memory = .ok device)
    (policy_eq : reorganizationOfJson lazy = .ok scenario.reorganization) :
    ofJson (.ofMembers record) = .ok (scenario.listed (record.map Prod.fst) device) := by
  have named := scenario.named memory lazy
  rw [ofJson_eq plain listed, named.bind_field listed rfl device_eq,
    named.bind_field listed rfl policy_eq]
  rfl

theorem ofJson_refused_device {fault : Json.Fault} (among : "memory" ∈ record.map Prod.fst)
    (refused : DeviceProfile.ofJson (depthLimit - 1) memory = .error fault) :
    ofJson (.ofMembers record) = .error fault := by
  rw [ofJson_eq plain listed, (scenario.named memory lazy).bind_refused listed rfl among refused]

theorem ofJson_refused_policy {fault : Json.Fault} {device : DeviceProfile Float}
    (device_eq : DeviceProfile.ofJson (depthLimit - 1) memory = .ok device)
    (among : "lazy" ∈ record.map Prod.fst) (refused : reorganizationOfJson lazy = .error fault) :
    ofJson (.ofMembers record) = .error fault := by
  have named := scenario.named memory lazy
  rw [ofJson_eq plain listed, named.bind_field listed rfl device_eq,
    named.bind_refused listed rfl among refused]

omit plain in
theorem parse_eq (soundMemory : .string none ∉ memory.toTokens)
    (soundLazy : .string none ∉ lazy.toTokens) :
    parse (Json.ofMembers record).compact =
      (ofJson (.ofMembers record)).mapError .serialization := by
  have sound : .string none ∉ (Json.ofMembers record).toTokens := by
    refine sound_ofMembers fun member inside => ?_
    have all : ∀ member ∈ scenario.members memory lazy, .string none ∉ member.2.toTokens := by
      simp only [members, List.forall_mem_cons]
      exact ⟨sound_ofNat _, sound_ofNat _, sound_ofNat _, sound_ofNat _, sound_ofNat _, soundMemory,
        soundLazy, nofun⟩
    exact all member (listed.subset inside)
  rw [parse, parse_compact sound]
  rfl

end Reading

theorem parse_ordered (plain : scenario.Plain) (fields : profile <+~ scenario.memory.members)
    (order : device ~ scenario.memory.tag :: profile)
    (writes : Writes scenario.reorganization lazy)
    (listed : record <+~ scenario.members (.ofMembers device) lazy) :
    parse (Json.ofMembers record).compact = .ok (scenario.listed (record.map Prod.fst)
      (scenario.memory.listed (profile.map Prod.fst))) := by
  have readable := DeviceProfile.readable_tagged plain.memory order fields
  have read := ofJson_listed plain listed
    (DeviceProfile.ofJson_listed plain.memory order fields 125) (writes.read plain.policy)
  rw [parse_eq listed (sound_of_readable readable) (writes.sound plain.policy), read]
  rfl

theorem parse_untagged (plain : scenario.Plain) (fields : profile <+~ scenario.memory.members)
    (writes : Writes scenario.reorganization lazy)
    (listed : record <+~ scenario.members (.ofMembers profile) lazy)
    (among : "memory" ∈ record.map Prod.fst) :
    parse (Json.ofMembers record).compact = .error (.serialization (.missing DeviceKind.key)) := by
  have readable := DeviceProfile.readable_listed plain.memory fields
  have refused := ofJson_refused_device plain listed among
    (DeviceProfile.ofJson_untagged plain.memory fields 125)
  rw [parse_eq listed (sound_of_readable readable) (writes.sound plain.policy), refused]
  rfl

theorem parse_incomplete (plain : scenario.Plain) {policy : ReorganizationPolicy Float}
    (found : scenario.reorganization = some policy) (fields : profile <+~ scenario.memory.members)
    (order : device ~ scenario.memory.tag :: profile) {parts : List (String × Json)}
    (few : parts <+~ policy.members)
    (incomplete : ∃ name ∈ policy.members.map Prod.fst, name ∉ parts.map Prod.fst)
    (listed : record <+~ scenario.members (.ofMembers device) (.ofMembers parts))
    (among : "lazy" ∈ record.map Prod.fst) :
    ∃ name, name ∉ parts.map Prod.fst ∧
      parse (Json.ofMembers record).compact = .error (.serialization (.missing name)) := by
  have readable := DeviceProfile.readable_tagged plain.memory order fields
  have plainPolicy := plain.policy policy found
  obtain ⟨name, absent, missing⟩ :=
    ReorganizationPolicy.ofJson_incomplete plainPolicy few incomplete
  have refused := ofJson_refused_policy plain listed
    (DeviceProfile.ofJson_listed plain.memory order fields 125) among
    (congrArg (Except.map some) missing)
  have readableParts : ∀ part ∈ parts, part.2.Readable := fun part inside =>
    ReorganizationPolicy.readable_members plainPolicy part (few.subset inside)
  refine ⟨name, absent, ?_⟩
  rw [parse_eq listed (sound_of_readable readable) (sound_of_readable readableParts), refused]
  rfl

theorem listed_all (scenario : Scenario Float) (memory lazy : Json) :
    scenario.listed ((scenario.members memory lazy).map Prod.fst)
      (scenario.memory.listed (scenario.memory.members.map Prod.fst)) = scenario := by
  rw [DeviceProfile.listed_all]
  rfl

theorem parse_toJson (plain : scenario.Plain) : parse scenario.toJson.compact = .ok scenario := by
  rw [toJson_eq, DeviceProfile.toJson_eq]
  have read := parse_ordered plain (.refl _) (.refl _)
    (writes_reorganizationToJson scenario.reorganization) (.refl _)
  rw [read, listed_all]

/-- A scenario is read back from its text. Of a text that lists only a part of it, in whatever
order, the listed part is read and the standard scenario fills in the rest; a device without its
kind and a policy without one of its parts are refused. -/
theorem parse_listed (scenario : Scenario Float) (plain : scenario.Plain) :
    parse scenario.toJson.compact = .ok scenario ∧
    (∀ profile memory lazy record, profile <+~ scenario.memory.members →
      memory ~ scenario.memory.tag :: profile → Writes scenario.reorganization lazy →
      record <+~ scenario.members (.ofMembers memory) lazy →
      parse (Json.ofMembers record).compact = .ok (scenario.listed (record.map Prod.fst)
        (scenario.memory.listed (profile.map Prod.fst)))) ∧
    (∀ profile lazy record, profile <+~ scenario.memory.members →
      Writes scenario.reorganization lazy →
      record <+~ scenario.members (.ofMembers profile) lazy → "memory" ∈ record.map Prod.fst →
      parse (Json.ofMembers record).compact = .error (.serialization (.missing "type"))) ∧
    (∀ policy profile memory lazy record, scenario.reorganization = some policy →
      profile <+~ scenario.memory.members → memory ~ scenario.memory.tag :: profile →
      lazy <+~ policy.members →
      (∃ name ∈ policy.members.map Prod.fst, name ∉ lazy.map Prod.fst) →
      record <+~ scenario.members (.ofMembers memory) (.ofMembers lazy) →
      "lazy" ∈ record.map Prod.fst →
      ∃ name, name ∉ lazy.map Prod.fst ∧
        parse (Json.ofMembers record).compact = .error (.serialization (.missing name))) := by
  refine ⟨parse_toJson plain, ?_, ?_, ?_⟩
  · intro profile memory lazy record fields order writes listed
    exact parse_ordered plain fields order writes listed
  · intro profile lazy record fields writes listed among
    exact parse_untagged plain fields writes listed among
  · intro policy profile memory lazy record found fields order parts incomplete listed among
    exact parse_incomplete plain found fields order parts incomplete listed among

/-- Phase-change memory with a latency of its own, and a policy. -/
theorem parse_listed_of_three_members :
    parse (Json.ofMembers [("starting_entries", .ofNat 100000),
      ("memory", .ofMembers [("read_time", .ofDouble 0.0000005), ("type", .ofText "pcm")]),
      ("lazy", ReorganizationPolicy.toJson ⟨4, 2, 0.5⟩)]).compact =
    .ok { standard with
      startingEntries := 100000
      memory := .pcm { Pcm.Profile.standard with readTime := 0.0000005 }
      reorganization := some ⟨4, 2, 0.5⟩ } := by
  let scenario : Scenario Float := { standard with
    startingEntries := 100000
    memory := .pcm { Pcm.Profile.standard with readTime := 0.0000005 }
    reorganization := some ⟨4, 2, 0.5⟩ }
  have plain : scenario.Plain := {
    keySize := by decide
    dataSize := by decide
    nodeSize := by decide
    partitionSize := by decide
    startingEntries := by decide
    memory := ⟨by decide, by decide +kernel, by decide +kernel⟩
    policy := fun policy found => by
      cases found
      exact ⟨by decide, by decide, by decide +kernel⟩ }
  have memory : [("read_time", .ofDouble 0.0000005)] <+~ scenario.memory.members :=
    ((List.nil_sublist _).cons_cons _ |>.cons _ |>.cons _).subperm
  exact (parse_listed scenario plain).2.1 _ _ _ _ memory (.swap _ _ []) (.ordered (.refl _))
    ((List.Sublist.refl _).cons _ |>.cons _ |>.cons _ |>.cons _).subperm

end Scenario

end MergeCost
