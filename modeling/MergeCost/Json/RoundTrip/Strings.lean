import MergeCost.Json.Text

/-!
A string is read back as it was written: the characters that `encode` writes between quotation
marks are scanned up to the closing one, and stand for the text.
-/

namespace MergeCost.Json

theorem escaped?_of_letter? {c letter : Char} (found : letter? c = some letter) :
    escaped? letter = some c := by
  unfold letter? at found
  split at found <;> cases found <;> rfl

/-- The letter `u` is kept for units. -/
theorem letter?_ne_unit {c letter : Char} (found : letter? c = some letter) : letter ≠ 'u' := by
  rintro rfl
  have := escaped?_of_letter? found
  contradiction

/-- A control character has one of the first 32 codes. -/
theorem exists_code_of_control {c : Char} (control : c < ' ') :
    ∃ code : Fin 32, c = Char.ofNat code := by
  have small : c.toNat < 32 := control
  exact ⟨⟨c.toNat, small⟩, (Char.ofNat_toNat c).symm⟩

theorem unitOf?_control (code : Fin 32) :
    unitOf? ['0', '0', hexDigit ((Char.ofNat code).toNat / 16), hexDigit (Char.ofNat code).toNat] =
      some code.val := by
  revert code
  decide

theorem decode_control (code : Fin 32) (pieces : List Piece) :
    decode (.unit code.val :: pieces) = (decode pieces).map (Char.ofNat code.val :: ·) := by
  have low : isLowSurrogate code.val = false := by
    revert code
    decide
  have high : isHighSurrogate code.val = false := by
    revert code
    decide
  rw [decode.eq_def]
  simp [low, high]

/-- Puts a piece in front of what has been scanned. -/
def withPiece (piece : Piece) : List Piece × List Char → List Piece × List Char
  | (pieces, rest) => (piece :: pieces, rest)

theorem scanString_letter {letter c : Char} (stands : escaped? letter = some c)
    (noUnit : letter ≠ 'u') (text : List Char) :
    scanString ('\x5c' :: letter :: text) = (scanString text).map (withPiece (.char c)) := by
  rw [scanString, stands, Option.map_eq_bind]
  · rfl
  · exact fun _ _ _ _ _ isUnit _ => noUnit isUnit

theorem scanString_control (code : Fin 32) (text : List Char) :
    scanString (['\x5c', 'u', '0', '0', hexDigit ((Char.ofNat code).toNat / 16),
        hexDigit (Char.ofNat code).toNat] ++ text) =
      (scanString text).map (withPiece (.unit code)) := by
  simp only [List.cons_append, List.nil_append, scanString, unitOf?_control, Option.map_eq_bind]
  rfl

theorem scanString_plain {c : Char} (noQuote : c ≠ '\x22') (noEscape : c ≠ '\x5c')
    (noControl : ¬ c < ' ') (text : List Char) :
    scanString (c :: text) = (scanString text).map (withPiece (.char c)) := by
  rw [scanString, if_neg noControl, Option.map_eq_bind]
  · rfl
  · exact noQuote
  · exact fun _ _ _ _ _ isEscape _ => noEscape isEscape
  · exact fun _ _ isEscape _ => noEscape isEscape

/-- What is written for a character is read as a piece that stands for it. -/
theorem scanString_escape (c : Char) (text : List Char) :
    ∃ piece, (∀ pieces, decode (piece :: pieces) = (decode pieces).map (c :: ·)) ∧
      scanString (escape c ++ text) = (scanString text).map (withPiece piece) := by
  unfold escape
  split
  · next letter found =>
      exact ⟨.char c, fun _ => rfl,
        scanString_letter (escaped?_of_letter? found) (letter?_ne_unit found) text⟩
  · next plain =>
      split
      · next control =>
          obtain ⟨code, rfl⟩ := exists_code_of_control control
          exact ⟨.unit code, decode_control code, scanString_control code text⟩
      · next noControl =>
          refine ⟨.char c, fun _ => rfl, scanString_plain ?_ ?_ noControl text⟩ <;> rintro rfl <;>
            contradiction

theorem scanString_encode (text rest : List Char) :
    ∃ pieces, decode pieces = some text ∧
      scanString (encode text ++ '\x22' :: rest) = some (pieces, rest) := by
  induction text with
  | nil => exact ⟨[], rfl, by simp [encode, scanString]⟩
  | cons c text ih =>
      obtain ⟨pieces, decoded, scanned⟩ := ih
      obtain ⟨piece, stands, read⟩ := scanString_escape c (encode text ++ '\x22' :: rest)
      refine ⟨piece :: pieces, ?_, ?_⟩
      · rw [stands, decoded]
        rfl
      · rw [encode, List.flatMap_cons, List.append_assoc]
        rw [encode] at read scanned
        rw [read, scanned]
        rfl

end MergeCost.Json
