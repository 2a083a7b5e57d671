import MergeCost.Json.Record
import MergeCost.Json.RoundTrip
import Mathlib.Data.List.Nodup
import Mathlib.Data.List.Perm.Subperm

/-!
Records whose members are listed in part and in any order. Such a record is read field by field: a
field that is listed has its value, and one that is not listed has its default or is missing.
-/

namespace MergeCost

open scoped List

/-- Whether a double is what its own numeral is read as. -/
def Numeral.ReadsBack (value : Float) : Prop := (ofDouble? value).bind toDouble? = some value

instance (value : Float) : Decidable (Numeral.ReadsBack value) :=
  inferInstanceAs (Decidable (_ = _))

namespace Json

/-- Whether a value can be written, and read past without a look at what it holds. -/
structure Readable (value : Json) : Prop where
  sound : .string none ∉ value.toTokens
  checked : ∀ room, value.check room = .ok ()

theorem readable_ofText (text : String) : (ofText text).Readable :=
  ⟨by simp [ofText, toTokens], fun _ => rfl⟩

theorem toText_ofText (text : String) : (ofText text).toText = .ok text := rfl

theorem sound_ofNat (count : Nat) : .string none ∉ (ofNat count).toTokens := by
  simp [ofNat, toTokens]

theorem readable_ofNat {count : Nat} (fits : count ≤ maxCount) : (ofNat count).Readable := by
  refine ⟨sound_ofNat count, fun room => ?_⟩
  rw [ofNat, check, Numeral.toCount?_ofNat fits]
  rfl

theorem toCount_ofNat {count : Nat} (fits : count ≤ maxCount) :
    (ofNat count).toCount = .ok count := by
  rw [ofNat, toCount, Numeral.toCount?_ofNat fits]

theorem exists_ofDouble {value : Float} (plain : Numeral.ReadsBack value) :
    ∃ numeral, ofDouble value = .number numeral ∧ numeral.toDouble? = some value := by
  obtain ⟨numeral, written, read⟩ := Option.bind_eq_some_iff.mp plain
  exact ⟨numeral, by rw [ofDouble, written], read⟩

theorem readable_ofDouble {value : Float} (plain : Numeral.ReadsBack value) :
    (ofDouble value).Readable := by
  obtain ⟨numeral, written, read⟩ := exists_ofDouble plain
  rw [written]
  refine ⟨by simp [toTokens], fun room => ?_⟩
  rw [check, read, Option.isSome_some, Bool.or_true]
  rfl

theorem toDouble_ofDouble {value : Float} (plain : Numeral.ReadsBack value) :
    (ofDouble value).toDouble = .ok value := by
  obtain ⟨numeral, written, read⟩ := exists_ofDouble plain
  rw [written, toDouble, read]

section Members

variable {members record : List (String × Json)}

theorem sound_memberTokens (sound : ∀ member ∈ members, .string none ∉ member.2.toTokens) :
    .string none ∉ memberTokens (members.map fun member => (some member.1, member.2)) := by
  induction members with
  | nil => simp [memberTokens]
  | cons first rest ih =>
      rw [List.forall_mem_cons] at sound
      simp [memberTokens, sound.1, ih sound.2]

theorem sound_ofMembers (sound : ∀ member ∈ members, .string none ∉ member.2.toTokens) :
    .string none ∉ (ofMembers members).toTokens := by
  cases members with
  | nil => simp [ofMembers, toTokens]
  | cons first rest =>
      rw [List.forall_mem_cons] at sound
      simp [ofMembers, toTokens, sound.1, sound_memberTokens sound.2]

theorem sound_of_readable (readable : ∀ member ∈ members, member.2.Readable) :
    .string none ∉ (ofMembers members).toTokens :=
  sound_ofMembers fun member inside => (readable member inside).sound

theorem check_ofMembers (room : Nat) (checked : ∀ member ∈ members, member.2.check room = .ok ()) :
    (ofMembers members).check (room + 1) = .ok () := by
  rw [ofMembers, check]
  induction members with
  | nil => rfl
  | cons first rest ih =>
      rw [List.forall_mem_cons] at checked
      rw [List.map_cons, checkMembers, checked.1]
      exact ih checked.2

end Members

/-- Members with one for each field of a record, under the name of that field. -/
structure Named (fields : List Field) (members : List (String × Json)) : Prop where
  names_eq : members.map Prod.fst = fields.map Field.name
  nodup : (fields.map Field.name).Nodup
  accepted : ∀ field ∈ fields, fields.find? (Field.accepts · field.name) = some field

variable {fields : List Field} {members record : List (String × Json)}

theorem nodup_names {first second : List (String × Json)} (listed : first <+~ second)
    (nodup : (second.map Prod.fst).Nodup) : (first.map Prod.fst).Nodup := by
  obtain ⟨kept, order, sub⟩ := listed
  exact (order.map Prod.fst).nodup_iff.mp ((sub.map Prod.fst).nodup nodup)

theorem lookup_eq_none {name : String} (absent : name ∉ record.map Prod.fst) :
    record.lookup name = none := by
  rw [List.lookup_eq_none_iff]
  intro member inside
  exact bne_iff_ne.mpr fun same => absent (same ▸ List.mem_map_of_mem inside)

theorem lookup_eq_some {name : String} {value : Json} (nodup : (record.map Prod.fst).Nodup)
    (member : (name, value) ∈ record) : record.lookup name = some value := by
  cases found : record.lookup name with
  | none => simpa using List.lookup_eq_none_iff.mp found _ member
  | some other =>
      obtain ⟨before, after, split, _⟩ := List.lookup_eq_some_iff.mp found
      have inside : (name, other) ∈ record := by simp [split]
      have same := List.inj_on_of_nodup_map nodup inside member rfl
      cases same
      rfl

/-- Members under the names of fields go into a record as they stand. -/
theorem collect_eq {found : Record}
    (known : ∀ member ∈ record, ∃ field, fields.find? (Field.accepts · member.1) = some field ∧
      field.name = member.1)
    (nodup : ((found ++ record).map Prod.fst).Nodup) :
    collect fields (record.map fun member => (some member.1, member.2)) found =
      .ok (found ++ record) := by
  induction record generalizing found with
  | nil => simp [collect]
  | cons first rest ih =>
      obtain ⟨⟨field, accepted, name_eq⟩, known⟩ := List.forall_mem_cons.mp known
      have fresh : first.1 ∉ found.map Prod.fst := by
        rw [List.map_append, List.nodup_append] at nodup
        exact fun earlier => nodup.2.2 _ earlier _ List.mem_cons_self rfl
      have regrouped : found ++ first :: rest = found ++ [first] ++ rest := by simp
      rw [regrouped] at nodup ⊢
      rw [List.map_cons, collect, accepted]
      simp only [name_eq, lookup_eq_none fresh]
      exact ih known nodup

namespace Named

variable (named : Named fields members) (listed : record <+~ members)
include named listed

theorem toRecord : (ofMembers record).toRecord fields = .ok record := by
  have nodup : (record.map Prod.fst).Nodup := nodup_names listed (named.names_eq ▸ named.nodup)
  refine collect_eq (fun member inside => ?_) nodup
  have name : member.1 ∈ fields.map Field.name := by
    rw [← named.names_eq]
    exact List.mem_map_of_mem (listed.subset inside)
  obtain ⟨field, among, name_eq⟩ := List.mem_map.mp name
  exact ⟨field, name_eq ▸ named.accepted field among, name_eq⟩

theorem lookup_eq (name : String) :
    record.lookup name = if name ∈ record.map Prod.fst then members.lookup name else none := by
  have nodup : (members.map Prod.fst).Nodup := named.names_eq ▸ named.nodup
  by_cases among : name ∈ record.map Prod.fst
  · obtain ⟨member, inside, rfl⟩ := List.mem_map.mp among
    rw [if_pos among, lookup_eq_some (nodup_names listed nodup) inside,
      lookup_eq_some nodup (listed.subset inside)]
  · rw [if_neg among, lookup_eq_none among]

variable {α β : Type} {name : String} {value : Json} {read : Json → Except Fault α}

theorem field_eq (found : members.lookup name = some value) (default : α) :
    Record.field record name default read =
      if name ∈ record.map Prod.fst then read value else .ok default := by
  rw [Record.field, named.lookup_eq listed, found]
  by_cases among : name ∈ record.map Prod.fst
  · rw [if_pos among, if_pos among]
  · rw [if_neg among, if_neg among]

theorem bind_toRecord (next : Record → Except Fault β) :
    ((ofMembers record).toRecord fields >>= next) = next record := by
  rw [named.toRecord listed]
  rfl

/-- A reader goes on with what is listed of a field, or else with its default. -/
theorem bind_field (found : members.lookup name = some value) {default content : α}
    (reads : read value = .ok content) (next : α → Except Fault β) :
    (Record.field record name default read >>= next) =
      next (if name ∈ record.map Prod.fst then content else default) := by
  rw [named.field_eq listed found, reads]
  split <;> rfl

theorem bind_refused (found : members.lookup name = some value)
    (among : name ∈ record.map Prod.fst) {fault : Fault} (refuses : read value = .error fault)
    (default : α) (next : α → Except Fault β) :
    (Record.field record name default read >>= next) = .error fault := by
  rw [named.field_eq listed found, if_pos among, refuses]
  rfl

theorem bind_required (found : members.lookup name = some value) {content : α}
    (reads : read value = .ok content) (next : α → Except Fault β) :
    (Record.required record name read >>= next) =
      if name ∈ record.map Prod.fst then next content else .error (.missing name) := by
  rw [Record.required, named.lookup_eq listed, found]
  by_cases among : name ∈ record.map Prod.fst
  · rw [if_pos among, if_pos among]
    exact congrArg (· >>= next) reads
  · rw [if_neg among, if_neg among]
    rfl

end Named

end Json

end MergeCost
