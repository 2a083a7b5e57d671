import MergeCost.Text.Count
import Mathlib.Data.List.DropRight
import Mathlib.Data.List.TakeWhile

/-!
Which texts are read as counts, and as which ones: those that spell a number below 2⁶⁴ in decimal
digits, perhaps with a plus sign in front, and with any blanks around.
-/

namespace MergeCost.Text

/-- Decimal digits and the number that they denote. The last digit counts its own value, and what
stands before it ten times as much as by itself. -/
inductive Denotes : List Char → Nat → Prop
  | one {digit : Char} (isDigit : digit.isDigit) : Denotes [digit] (digit.toNat - '0'.toNat)
  | more {digits : List Char} {number : Nat} {digit : Char} (earlier : Denotes digits number)
      (isDigit : digit.isDigit) :
      Denotes (digits ++ [digit]) (10 * number + (digit.toNat - '0'.toNat))

/-- Between blanks there is an optional plus sign, and then digits of a number that fits into a
64-bit word. -/
def Spells (text : String) (count : Nat) : Prop :=
  ∃ before sign digits after, text.toList = before ++ (sign ++ digits) ++ after ∧
    (∀ c ∈ before, isBlank c) ∧ (∀ c ∈ after, isBlank c) ∧ (sign = [] ∨ sign = ['+']) ∧
    Denotes digits count ∧ count < UInt64.size

/-! Digits -/

theorem Denotes.isDigit {digits : List Char} {number : Nat} (denotes : Denotes digits number) :
    ∀ c ∈ digits, c.isDigit := by
  induction denotes with
  | one isDigit =>
      intro c member
      rw [List.mem_singleton.mp member]
      exact isDigit
  | more _ isDigit earlier =>
      intro c member
      rcases List.mem_append.mp member with inside | last
      · exact earlier c inside
      · rw [List.mem_singleton.mp last]
        exact isDigit

theorem Denotes.ne_nil {digits : List Char} {number : Nat} (denotes : Denotes digits number) :
    digits ≠ [] := by
  cases denotes <;> simp

theorem Denotes.ofDigitChars_eq {digits : List Char} {number : Nat}
    (denotes : Denotes digits number) : Nat.ofDigitChars 10 digits 0 = number := by
  induction denotes with
  | one isDigit => rw [Nat.ofDigitChars_cons, Nat.ofDigitChars_nil, Nat.mul_zero, Nat.zero_add]
  | more _ isDigit earlier =>
      rw [Nat.ofDigitChars_append, earlier, Nat.ofDigitChars_cons, Nat.ofDigitChars_nil]

theorem denotes_ofDigitChars {digits : List Char} (something : digits ≠ [])
    (isDigit : ∀ c ∈ digits, c.isDigit) : Denotes digits (Nat.ofDigitChars 10 digits 0) := by
  induction digits using List.reverseRecOn with
  | nil => contradiction
  | append_singleton earlier last ih =>
      have lastDigit : last.isDigit := isDigit last (by simp)
      rw [Nat.ofDigitChars_append, Nat.ofDigitChars_cons, Nat.ofDigitChars_nil]
      cases earlier with
      | nil => simpa using Denotes.one lastDigit
      | cons first rest =>
          have denotes := ih (by simp) fun c inside => isDigit c (List.mem_append_left _ inside)
          exact .more denotes lastDigit

/-! Blanks -/

theorem not_isBlank_of_isDigit {c : Char} (isDigit : c.isDigit) : ¬isBlank c := by
  have low : 48 ≤ c.toNat ∧ c.toNat ≤ 57 := by
    simpa [Char.isDigit, UInt32.le_iff_toNat_le] using isDigit
  simp [isBlank, blankRanges]
  omega

theorem exists_trim (text : List Char) :
    ∃ before after, text = before ++ trim text ++ after ∧ (∀ c ∈ before, isBlank c) ∧
      ∀ c ∈ after, isBlank c := by
  let rest := text.dropWhile isBlank
  refine ⟨text.takeWhile isBlank, rest.rtakeWhile isBlank, ?_, ?_, ?_⟩
  · have whole : trim text ++ rest.rtakeWhile isBlank = rest := List.rdropWhile_append_rtakeWhile ..
    rw [List.append_assoc, whole, List.takeWhile_append_dropWhile]
  · exact fun c member => List.mem_takeWhile_imp member
  · exact fun c member => List.mem_rtakeWhile_imp member

/-- Trimming takes off all blanks around a text that neither starts nor ends with one. -/
theorem trim_surrounded {before after core : List Char} (blankBefore : ∀ c ∈ before, isBlank c)
    (blankAfter : ∀ c ∈ after, isBlank c) {first last : Char} {rest earlier : List Char}
    (starts : core = first :: rest) (ends : core = earlier ++ [last])
    (firstShows : ¬isBlank first) (lastShows : ¬isBlank last) :
    trim (before ++ core ++ after) = core := by
  have left : (before ++ core ++ after).dropWhile isBlank = core ++ after := by
    rw [List.append_assoc, List.dropWhile_append_of_pos blankBefore, starts, List.cons_append,
      List.dropWhile_cons_of_neg firstShows]
  have blankReversed : ∀ c ∈ after.reverse, isBlank c := by simpa using blankAfter
  have right : (core ++ after).reverse.dropWhile isBlank = core.reverse := by
    rw [List.reverse_append, List.dropWhile_append_of_pos blankReversed, ends, List.reverse_concat,
      List.dropWhile_cons_of_neg lastShows]
  rw [trim, left, right, List.reverse_reverse]

/-! Signs -/

theorem exists_sign (text : List Char) :
    ∃ sign, text = sign ++ withoutPlus text ∧ (sign = [] ∨ sign = ['+']) := by
  unfold withoutPlus
  split
  · exact ⟨['+'], rfl, .inr rfl⟩
  · exact ⟨[], rfl, .inl rfl⟩

theorem withoutPlus_signed {sign digits : List Char} (plus : sign = [] ∨ sign = ['+'])
    (isDigit : ∀ c ∈ digits, c.isDigit) : withoutPlus (sign ++ digits) = digits := by
  rcases plus with rfl | rfl
  · rw [List.nil_append]
    unfold withoutPlus
    split
    · exact absurd (isDigit '+' (by simp)) (by decide)
    · rfl
  · rfl

/-- Nothing but the blanks around it is trimmed off a numeral. -/
theorem trim_signed {before sign digits after : List Char} (blankBefore : ∀ c ∈ before, isBlank c)
    (blankAfter : ∀ c ∈ after, isBlank c) (plus : sign = [] ∨ sign = ['+'])
    (something : digits ≠ []) (isDigit : ∀ c ∈ digits, c.isDigit) :
    trim (before ++ (sign ++ digits) ++ after) = sign ++ digits := by
  have lastShows := not_isBlank_of_isDigit (isDigit _ (List.getLast_mem something))
  have ends : sign ++ digits = (sign ++ digits.dropLast) ++ [digits.getLast something] := by
    rw [List.append_assoc, List.dropLast_append_getLast]
  rcases plus with rfl | rfl
  · obtain ⟨first, rest, rfl⟩ := List.exists_cons_of_ne_nil something
    exact trim_surrounded blankBefore blankAfter rfl ends
      (not_isBlank_of_isDigit (isDigit first (by simp))) lastShows
  · exact trim_surrounded blankBefore blankAfter rfl ends (by decide) lastShows

/-- A text is read as a count just if it spells it. -/
theorem count?_eq_some_iff {text : String} {count : Nat} :
    count? text = some count ↔ Spells text count := by
  constructor
  · intro read
    simp only [count?, Option.ite_none_right_eq_some, Option.some.injEq] at read
    obtain ⟨⟨something, isDigit⟩, fits, rfl⟩ := read
    obtain ⟨before, after, surrounded, blankBefore, blankAfter⟩ := exists_trim text.toList
    obtain ⟨sign, signed, plus⟩ := exists_sign (trim text.toList)
    have denotes := denotes_ofDigitChars something (List.all_eq_true.mp isDigit)
    refine ⟨before, sign, _, after, ?_, blankBefore, blankAfter, plus, denotes, ?_⟩
    · rw [← signed]
      exact surrounded
    · exact Nat.lt_of_le_of_lt fits (by decide)
  · rintro ⟨before, sign, digits, after, spelled, blankBefore, blankAfter, plus, denotes, fits⟩
    have isDigit := denotes.isDigit
    have core := trim_signed blankBefore blankAfter plus denotes.ne_nil isDigit
    have within : count ≤ maxCount := Nat.le_of_lt_succ fits
    rw [← spelled] at core
    simp only [count?, core, withoutPlus_signed plus isDigit, denotes.ofDigitChars_eq, within,
      if_true]
    rw [if_pos ⟨denotes.ne_nil, List.all_eq_true.mpr isDigit⟩]

end MergeCost.Text
