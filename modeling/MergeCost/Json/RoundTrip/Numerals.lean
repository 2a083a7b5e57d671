import MergeCost.Json.Token

/-!
A numeral is read back as it was written, whatever follows it, unless that could be taken for a
part of the numeral.
-/

namespace MergeCost.Json

/-- What follows is no digit. -/
def EndsDigits (rest : List Char) : Prop := ∀ c ∈ rest.head?, c.isDigit = false

/-- What follows is no part of a numeral. -/
def EndsNumeral (rest : List Char) : Prop :=
  ∀ c ∈ rest.head?, c.isDigit = false ∧ c ≠ '.' ∧ c ≠ 'e' ∧ c ≠ 'E'

theorem EndsNumeral.endsDigits {rest : List Char} (ends : EndsNumeral rest) : EndsDigits rest :=
  fun c found => (ends c found).1

theorem scanDigits_append {digits rest : List Char} (all : ∀ c ∈ digits, c.isDigit = true)
    (ends : EndsDigits rest) : scanDigits (digits ++ rest) = (digits, rest) := by
  rw [scanDigits, List.takeWhile_append_of_pos all, List.dropWhile_append_of_pos all]
  cases rest with
  | nil => simp
  | cons c rest => simp [ends c rfl]

theorem isDigit_of_mem_toDigits {count : Nat} {c : Char} (member : c ∈ Nat.toDigits 10 count) :
    c.isDigit = true :=
  Nat.isDigit_of_mem_toDigits (by decide) (by decide) member

theorem toDigits_ne_nil (count : Nat) : Nat.toDigits 10 count ≠ [] :=
  List.ne_nil_of_length_pos Nat.length_toDigits_pos

/-- Only zero is written with a zero in front. -/
theorem eq_zero_of_toDigits {count : Nat} {rest : List Char}
    (written : Nat.toDigits 10 count = '0' :: rest) : count = 0 := by
  induction count using Nat.strongRecOn generalizing rest with
  | _ count ih =>
      by_cases small : count < 10
      · rw [Nat.toDigits_of_lt_base small, List.cons.injEq] at written
        have single : ∀ digit : Fin 10, Nat.digitChar digit = '0' → digit.val = 0 := by decide
        exact single ⟨count, small⟩ written.1
      · rw [Nat.toDigits_of_base_le (by decide) (Nat.not_lt.mp small)] at written
        cases leading : Nat.toDigits 10 (count / 10) with
        | nil => exact absurd leading (toDigits_ne_nil _)
        | cons first more =>
            rw [leading, List.cons_append, List.cons.injEq] at written
            rw [written.1] at leading
            have := ih (count / 10) (by omega) leading
            omega

theorem scanDigits_toDigits (count : Nat) {rest : List Char} (ends : EndsDigits rest) :
    scanDigits (Nat.toDigits 10 count ++ rest) = (Nat.toDigits 10 count, rest) :=
  scanDigits_append (fun _ => isDigit_of_mem_toDigits) ends

theorem ofDigitChars_toDigits (count : Nat) :
    Nat.ofDigitChars 10 (Nat.toDigits 10 count) 0 = count :=
  Nat.ofDigitChars_toDigits (by decide) (by decide)

theorem scanWhole_toDigits (count : Nat) {rest : List Char} (ends : EndsDigits rest) :
    scanWhole (Nat.toDigits 10 count ++ rest) = some (count, rest) := by
  rw [scanWhole, scanDigits_toDigits count ends]
  split
  · next found => exact absurd (Prod.mk.inj found).1 (toDigits_ne_nil count)
  · next found =>
      have written := (Prod.mk.inj found).1
      simp [eq_zero_of_toDigits written] at written
  · next found =>
      obtain ⟨rfl, rfl⟩ := Prod.mk.inj found
      rw [ofDigitChars_toDigits]

theorem isDigit_char (digit : Digit) : digit.char.isDigit = true := by
  revert digit
  decide

theorem filterMap_ofChar?_char (digits : List Digit) :
    (digits.map Digit.char).filterMap Digit.ofChar? = digits := by
  induction digits with
  | nil => rfl
  | cons digit digits ih =>
      rw [List.map_cons, List.filterMap_cons_some (Digit.ofChar?_char digit), ih]

theorem fractionText_toList {digits : List Digit} (nonempty : digits ≠ []) :
    (Numeral.fractionText digits).toList = '.' :: digits.map Digit.char := by
  simp [Numeral.fractionText, nonempty]

theorem scanFraction_fractionText (digits : List Digit) {rest : List Char}
    (ends : EndsNumeral rest ∨ ∃ more, rest = 'e' :: more) :
    scanFraction ((Numeral.fractionText digits).toList ++ rest) = some (digits, rest) := by
  have noDigit : EndsDigits rest := by
    rcases ends with ends | ⟨more, rfl⟩
    · exact ends.endsDigits
    · simp [EndsDigits]
  by_cases empty : digits = []
  · subst empty
    change scanFraction rest = _
    rcases ends with ends | ⟨more, rfl⟩
    · rw [scanFraction]
      rintro text rfl
      exact (ends '.' rfl).2.1 rfl
    · rfl
  · rw [fractionText_toList empty, List.cons_append, scanFraction,
      scanDigits_append (by simp [isDigit_char]) noDigit]
    split
    · next found => simp_all
    · next found =>
        obtain ⟨rfl, rfl⟩ := Prod.mk.inj found
        rw [filterMap_ofChar?_char]

theorem scanExponentSign_text (negative : Bool) (text : List Char) :
    scanExponentSign ((if negative then '-' else '+') :: text) = (negative, text) := by
  cases negative <;> rfl

theorem exponentText_toList (exponent : Int) :
    (Numeral.exponentText (some exponent)).toList =
      'e' :: (if decide (exponent < 0) then '-' else '+') :: Nat.toDigits 10 exponent.natAbs := by
  rw [Numeral.exponentText, Numeral.wholeText, String.toList_append, String.toList_ofList]
  by_cases negative : exponent < 0 <;> simp [negative]

theorem signed_natAbs (exponent : Int) :
    (if decide (exponent < 0) then -(exponent.natAbs : Int) else exponent.natAbs) = exponent := by
  by_cases negative : exponent < 0
  · rw [if_pos (decide_eq_true negative)]
    omega
  · rw [if_neg (by simpa using negative)]
    omega

theorem scanExponent_exponentText (exponent : Option Int) {rest : List Char}
    (ends : EndsNumeral rest) :
    scanExponent ((Numeral.exponentText exponent).toList ++ rest) = some (exponent, rest) := by
  cases exponent with
  | none =>
      cases rest with
      | nil => rfl
      | cons c rest =>
          obtain ⟨_, _, noMark, noCapital⟩ := ends c rfl
          simp [Numeral.exponentText, scanExponent, noMark, noCapital]
  | some exponent =>
      rw [exponentText_toList, List.cons_append, List.cons_append, scanExponent, if_pos (.inl rfl),
        scanExponentSign_text]
      simp only [scanDigits_toDigits exponent.natAbs ends.endsDigits]
      split
      · next found => exact absurd (Prod.mk.inj found).1 (toDigits_ne_nil _)
      · next found =>
          obtain ⟨rfl, rfl⟩ := Prod.mk.inj found
          rw [ofDigitChars_toDigits, signed_natAbs]

theorem endsDigits_fractionText (digits : List Digit) {rest : List Char} (ends : EndsDigits rest) :
    EndsDigits ((Numeral.fractionText digits).toList ++ rest) := by
  by_cases empty : digits = []
  · simpa [Numeral.fractionText, empty] using ends
  · rw [fractionText_toList empty]
    simp [EndsDigits]

theorem exponentText_starts (exponent : Option Int) {rest : List Char} (ends : EndsNumeral rest) :
    EndsNumeral ((Numeral.exponentText exponent).toList ++ rest) ∨
      ∃ more, (Numeral.exponentText exponent).toList ++ rest = 'e' :: more := by
  cases exponent with
  | none => exact .inl (by simpa [Numeral.exponentText] using ends)
  | some exponent => exact .inr ⟨_, by rw [exponentText_toList]; rfl⟩

theorem endsDigits_exponentText (exponent : Option Int) {rest : List Char}
    (ends : EndsNumeral rest) : EndsDigits ((Numeral.exponentText exponent).toList ++ rest) := by
  rcases exponentText_starts exponent ends with ends | ⟨more, starts⟩
  · exact ends.endsDigits
  · simp [starts, EndsDigits]

theorem scanSign_toDigits (negative : Bool) (count : Nat) (rest : List Char) :
    scanSign ((Numeral.signText negative).toList ++ (Nat.toDigits 10 count ++ rest)) =
      (negative, Nat.toDigits 10 count ++ rest) := by
  cases negative with
  | true => rfl
  | false =>
      change scanSign (Nat.toDigits 10 count ++ rest) = _
      cases written : Nat.toDigits 10 count with
      | nil => exact absurd written (toDigits_ne_nil count)
      | cons first more =>
          have digit : first.isDigit = true :=
            isDigit_of_mem_toDigits (by rw [written]; exact List.mem_cons_self)
          rw [List.cons_append, scanSign]
          rintro text same
          rw [(List.cons.inj same).1] at digit
          contradiction

theorem text_toList (numeral : Numeral) : numeral.text.toList =
    (Numeral.signText numeral.negative).toList ++ (Nat.toDigits 10 numeral.whole ++
      ((Numeral.fractionText numeral.fraction).toList ++
        (Numeral.exponentText numeral.exponent).toList)) := by
  simp [Numeral.text, Numeral.wholeText]

/-- A numeral that has been written is the only one that its text can be read as. -/
theorem scanNumeral_text (numeral : Numeral) {rest : List Char} (ends : EndsNumeral rest) :
    scanNumeral (numeral.text.toList ++ rest) = some (numeral, rest) := by
  have starts := exponentText_starts numeral.exponent ends
  have noDigit :=
    endsDigits_fractionText numeral.fraction (endsDigits_exponentText numeral.exponent ends)
  simp only [scanNumeral, text_toList, List.append_assoc, scanSign_toDigits,
    scanWhole_toDigits numeral.whole noDigit, scanFraction_fractionText numeral.fraction starts,
    scanExponent_exponentText numeral.exponent ends, Option.bind_eq_bind, Option.bind_some,
    Option.pure_def]

end MergeCost.Json
