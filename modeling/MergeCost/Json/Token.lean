import MergeCost.Json.Basic
import MergeCost.Json.Text

/-!
The tokens of JSON, and their texts in both directions. Blanks between tokens are skipped; two
tokens that need no blank between them are never a value when they follow each other directly, so
the longest token is always the right one.
-/

namespace MergeCost.Json

inductive Token where
  | openArray
  | closeArray
  | openObject
  | closeObject
  | comma
  | colon
  | null
  | bool (value : Bool)
  | number (numeral : Numeral)
  | string (text : Option String)
deriving Repr, DecidableEq

def Token.text : Token → String
  | .openArray => "["
  | .closeArray => "]"
  | .openObject => "\x7b"
  | .closeObject => "\x7d"
  | .comma => ","
  | .colon => ":"
  | .null => "null"
  | .bool true => "true"
  | .bool false => "false"
  | .number numeral => numeral.text
  | .string text => quote (text.getD "")

/-- Takes a run of digits off the front. -/
def scanDigits (text : List Char) : List Char × List Char :=
  (text.takeWhile Char.isDigit, text.dropWhile Char.isDigit)

def scanSign : List Char → Bool × List Char
  | '-' :: rest => (true, rest)
  | text => (false, text)

/-- The whole part of a numeral has no leading zero. -/
def scanWhole (text : List Char) : Option (Nat × List Char) :=
  match scanDigits text with
  | ([], _) => none
  | ('0' :: _ :: _, _) => none
  | (digits, rest) => some (Nat.ofDigitChars 10 digits 0, rest)

/-- A point needs a digit after it. -/
def scanFraction : List Char → Option (List Digit × List Char)
  | '.' :: text =>
      match scanDigits text with
      | ([], _) => none
      | (digits, rest) => some (digits.filterMap Digit.ofChar?, rest)
  | text => some ([], text)

def scanExponentSign : List Char → Bool × List Char
  | '+' :: rest => (false, rest)
  | text => scanSign text

/-- The letter `e` needs a digit after it or after its sign. -/
def scanExponent (text : List Char) : Option (Option Int × List Char) :=
  match text with
  | [] => some (none, text)
  | mark :: rest =>
      if mark = 'e' ∨ mark = 'E' then
        let (negative, rest) := scanExponentSign rest
        match scanDigits rest with
        | ([], _) => none
        | (digits, rest) =>
            let size : Int := Nat.ofDigitChars 10 digits 0
            some (some (if negative then -size else size), rest)
      else some (none, text)

def scanNumeral (text : List Char) : Option (Numeral × List Char) := do
  let (negative, text) := scanSign text
  let (whole, text) ← scanWhole text
  let (fraction, text) ← scanFraction text
  let (exponent, text) ← scanExponent text
  return (⟨negative, whole, fraction, exponent⟩, text)

theorem scanSign_length (text : List Char) : (scanSign text).2.length ≤ text.length := by
  unfold scanSign
  split <;> simp

theorem scanExponentSign_length (text : List Char) :
    (scanExponentSign text).2.length ≤ text.length := by
  unfold scanExponentSign
  split
  · simp
  · exact scanSign_length _

theorem scanDigits_length {text digits rest : List Char}
    (scanned : scanDigits text = (digits, rest)) :
    digits.length + rest.length = text.length := by
  simp only [scanDigits, Prod.mk.injEq] at scanned
  obtain ⟨rfl, rfl⟩ := scanned
  rw [← List.length_append, List.takeWhile_append_dropWhile]

theorem scanWhole_length {text rest : List Char} {whole : Nat}
    (scanned : scanWhole text = some (whole, rest)) : rest.length < text.length := by
  unfold scanWhole at scanned
  split at scanned
  · simp at scanned
  · simp at scanned
  · rename_i digits _ nonempty _ run
    simp only [Option.some.injEq, Prod.mk.injEq] at scanned
    obtain ⟨_, rfl⟩ := scanned
    have total := scanDigits_length run
    have : digits ≠ [] := by rintro rfl; exact nonempty rfl
    have := List.length_pos_iff.mpr this
    omega

theorem scanFraction_length {text rest : List Char} {fraction : List Digit}
    (scanned : scanFraction text = some (fraction, rest)) : rest.length ≤ text.length := by
  unfold scanFraction at scanned
  split at scanned
  · split at scanned
    · simp at scanned
    · rename_i run
      simp only [Option.some.injEq, Prod.mk.injEq] at scanned
      obtain ⟨_, rfl⟩ := scanned
      have := scanDigits_length run
      simp only [List.length_cons]
      omega
  · simp only [Option.some.injEq, Prod.mk.injEq] at scanned
    simp [scanned.2]

theorem scanExponent_length {text rest : List Char} {exponent : Option Int}
    (scanned : scanExponent text = some (exponent, rest)) : rest.length ≤ text.length := by
  unfold scanExponent at scanned
  split at scanned
  · simp_all
  · rename_i mark tail
    split at scanned
    · have sign := scanExponentSign_length tail
      generalize scanExponentSign tail = signed at sign scanned
      obtain ⟨negative, body⟩ := signed
      simp only at sign scanned
      split at scanned
      · simp at scanned
      · rename_i run
        simp only [Option.some.injEq, Prod.mk.injEq] at scanned
        obtain ⟨_, rfl⟩ := scanned
        have := scanDigits_length run
        simp only [List.length_cons]
        omega
    · simp only [Option.some.injEq, Prod.mk.injEq] at scanned
      simp [← scanned.2]

theorem scanNumeral_length {text rest : List Char} {numeral : Numeral}
    (scanned : scanNumeral text = some (numeral, rest)) : rest.length < text.length := by
  unfold scanNumeral at scanned
  have sign := scanSign_length text
  generalize scanSign text = signed at sign scanned
  obtain ⟨negative, body⟩ := signed
  simp only [Option.bind_eq_bind, Option.bind_eq_some_iff, Option.pure_def, Option.some.injEq,
    Prod.mk.injEq, Prod.exists] at sign scanned
  obtain ⟨_, _, whole, _, _, fraction, _, _, exponent, _, rfl⟩ := scanned
  have := scanWhole_length whole
  have := scanFraction_length fraction
  have := scanExponent_length exponent
  omega

/-- Whether a character may stand between tokens. -/
def isBlank (c : Char) : Bool := c = ' ' || c = '\t' || c = '\n' || c = '\r'

def mark? : Char → Option Token
  | '[' => some .openArray
  | ']' => some .closeArray
  | '\x7b' => some .openObject
  | '\x7d' => some .closeObject
  | ',' => some .comma
  | ':' => some .colon
  | _ => none

/-- The tokens of a text; `none` if it has a part that is no token. -/
def tokens (text : List Char) : Option (List Token) :=
  match text with
  | [] => some []
  | 'n' :: 'u' :: 'l' :: 'l' :: rest => (tokens rest).map (.null :: ·)
  | 't' :: 'r' :: 'u' :: 'e' :: rest => (tokens rest).map (.bool true :: ·)
  | 'f' :: 'a' :: 'l' :: 's' :: 'e' :: rest => (tokens rest).map (.bool false :: ·)
  | c :: rest =>
      if isBlank c then tokens rest
      else if c = '\x22' then
        match scanned : scanString rest with
        | none => none
        | some (pieces, after) =>
            have := scanString_length scanned
            (tokens after).map (.string ((decode pieces).map String.ofList) :: ·)
      else
        match mark? c with
        | some mark => (tokens rest).map (mark :: ·)
        | none =>
            match scanned : scanNumeral (c :: rest) with
            | none => none
            | some (numeral, after) =>
                have := scanNumeral_length scanned
                (tokens after).map (.number numeral :: ·)
termination_by text.length
decreasing_by all_goals simp_all only [List.length_cons] <;> omega

end MergeCost.Json
