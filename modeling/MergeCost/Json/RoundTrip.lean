import MergeCost.Json.RoundTrip.Numerals
import MergeCost.Json.RoundTrip.Strings
import MergeCost.Json.RoundTrip.Structure

/-!
A value is read back from the text that `compact` writes for it.

Each token is read back from its own characters, whatever follows it; only after a numeral must
something follow that does not go on with it. The tokens of a value keep to that, since a comma or
the end of a container stands after each item and member.
-/

namespace MergeCost.Json

theorem tokens_mark {c : Char} {mark : Token} (found : mark? c = some mark) (rest : List Char) :
    tokens (c :: rest) = (tokens rest).map (mark :: ·) := by
  unfold mark? at found
  split at found <;> cases found <;> rw [tokens.eq_def] <;> rfl

theorem tokens_string {text rest : List Char} {pieces : List Piece}
    (scanned : scanString text = some (pieces, rest)) :
    tokens ('\x22' :: text) =
      (tokens rest).map (.string ((decode pieces).map String.ofList) :: ·) := by
  rw [tokens, if_neg (by decide), if_pos rfl]
  · split
    · next failed =>
        rw [scanned] at failed
        contradiction
    · next found =>
        rw [scanned] at found
        cases found
        rfl
  all_goals exact fun _ same => absurd same (by decide)

/-- The first character of a numeral is that of no other token. -/
structure Opens (c : Char) : Prop where
  noNull : c ≠ 'n'
  noTrue : c ≠ 't'
  noFalse : c ≠ 'f'
  noBlank : isBlank c = false
  noQuote : c ≠ '\x22'
  noMark : mark? c = none

theorem Opens.of_isDigit {c : Char} (digit : c.isDigit = true) : Opens c := by
  have other {d : Char} (noDigit : d.isDigit = false) : c ≠ d := by
    rintro rfl
    simp_all
  constructor
  · exact other rfl
  · exact other rfl
  · exact other rfl
  · simp only [isBlank, Bool.or_eq_false_iff, decide_eq_false_iff_not]
    exact ⟨⟨⟨other rfl, other rfl⟩, other rfl⟩, other rfl⟩
  · exact other rfl
  · unfold mark?
    split <;> simp_all

theorem tokens_number {c : Char} {text rest : List Char} {numeral : Numeral} (opens : Opens c)
    (scanned : scanNumeral (c :: text) = some (numeral, rest)) :
    tokens (c :: text) = (tokens rest).map (.number numeral :: ·) := by
  rw [tokens, if_neg (by simp [opens.noBlank]), if_neg opens.noQuote]
  · split
    · next found =>
        rw [opens.noMark] at found
        contradiction
    · split
      · next failed =>
          rw [scanned] at failed
          contradiction
      · next found =>
          rw [scanned] at found
          cases found
          rfl
  · exact fun _ same => absurd same opens.noNull
  · exact fun _ same => absurd same opens.noTrue
  · exact fun _ same => absurd same opens.noFalse

/-- A numeral starts with a digit or a sign. -/
theorem exists_text_eq_cons (numeral : Numeral) :
    ∃ c more, numeral.text.toList = c :: more ∧ Opens c := by
  rw [text_toList]
  cases numeral.negative with
  | true => exact ⟨'-', _, rfl, by constructor <;> decide⟩
  | false =>
      cases written : Nat.toDigits 10 numeral.whole with
      | nil => exact absurd written (toDigits_ne_nil _)
      | cons first more =>
          exact ⟨first, _, rfl,
            .of_isDigit (isDigit_of_mem_toDigits (by rw [written]; exact List.mem_cons_self))⟩

theorem quote_toList (text : String) :
    (quote text).toList = '\x22' :: (encode text.toList ++ ['\x22']) := by
  simp [quote]

/-- What is written for a token is read as this token, if it is no numeral that goes on. -/
theorem tokens_text {token : Token} {rest : List Char} (sound : token ≠ .string none)
    (ends : ∀ numeral, token = .number numeral → EndsNumeral rest) :
    tokens (token.text.toList ++ rest) = (tokens rest).map (token :: ·) := by
  match token with
  | .null =>
      change tokens ('n' :: 'u' :: 'l' :: 'l' :: rest) = _
      rw [tokens]
  | .bool true =>
      change tokens ('t' :: 'r' :: 'u' :: 'e' :: rest) = _
      rw [tokens]
  | .bool false =>
      change tokens ('f' :: 'a' :: 'l' :: 's' :: 'e' :: rest) = _
      rw [tokens]
  | .openArray | .closeArray | .openObject | .closeObject | .comma | .colon =>
      exact tokens_mark rfl rest
  | .number numeral =>
      have scanned := scanNumeral_text numeral (ends numeral rfl)
      obtain ⟨c, more, starts, opens⟩ := exists_text_eq_cons numeral
      rw [Token.text, starts, List.cons_append]
      rw [starts, List.cons_append] at scanned
      exact tokens_number opens scanned
  | .string (some text) =>
      obtain ⟨pieces, decoded, scanned⟩ := scanString_encode text.toList rest
      rw [Token.text, Option.getD_some, quote_toList]
      simp only [List.cons_append, List.append_assoc, List.nil_append]
      rw [tokens_string scanned, decoded, Option.map_some, String.ofList_toList]
  | .string none => contradiction

/-- The characters of tokens written without blanks. -/
def charsOf (written : List Token) : List Char := written.flatMap fun token => token.text.toList

theorem charsOf_append (first second : List Token) :
    charsOf (first ++ second) = charsOf first ++ charsOf second := List.flatMap_append

theorem compact_toList (value : Json) : value.compact.toList = charsOf value.toTokens := by
  simp [compact, charsOf, List.flatMap, Function.comp_def]

/-- What is written for these tokens is read as these tokens. -/
def Reads (written : List Token) : Prop :=
  ∀ rest, EndsNumeral rest → tokens (charsOf written ++ rest) = (tokens rest).map (written ++ ·)

/-- No numeral goes on with what is written for these tokens. -/
def Separates (written : List Token) : Prop := ∀ rest, EndsNumeral (charsOf written ++ rest)

theorem Reads.one {token : Token} (sound : token ≠ .string none) : Reads [token] := by
  intro rest ends
  simpa [charsOf] using tokens_text sound fun _ _ => ends

theorem Reads.cons {token : Token} {written : List Token} (sound : token ≠ .string none)
    (noNumber : ∀ numeral, token ≠ .number numeral) (reads : Reads written) :
    Reads (token :: written) := by
  intro rest ends
  have first : tokens (token.text.toList ++ (charsOf written ++ rest)) =
      (tokens (charsOf written ++ rest)).map (token :: ·) :=
    tokens_text sound fun numeral same => absurd same (noNumber numeral)
  rw [reads rest ends] at first
  simpa [charsOf, Function.comp_def] using first

theorem Reads.append {first second : List Token} (left : Reads first) (right : Reads second)
    (separates : Separates second) : Reads (first ++ second) := by
  intro rest ends
  have whole := left (charsOf second ++ rest) (separates rest)
  rw [right rest ends] at whole
  simpa [charsOf_append, Function.comp_def] using whole

theorem separates_itemTokens (items : List Json) : Separates (itemTokens items) := by
  cases items <;> simp [Separates, itemTokens, charsOf, Token.text, EndsNumeral]

theorem separates_memberTokens (members : List (Option String × Json)) :
    Separates (memberTokens members) := by
  cases members <;> simp [Separates, memberTokens, charsOf, Token.text, EndsNumeral]

mutual

theorem reads_toTokens (value : Json) (sound : .string none ∉ value.toTokens) :
    Reads value.toTokens := by
  match value with
  | .null | .bool _ | .number _ | .string _ =>
      exact .one fun same => sound (by rw [toTokens, same]; exact List.mem_singleton_self _)
  | .array [] => exact .cons (by simp) (by simp) (.one (by simp))
  | .array (item :: items) =>
      simp only [toTokens, List.mem_cons, List.mem_append, not_or] at sound
      exact .cons (by simp) (by simp) (.append (reads_toTokens item sound.2.1)
        (reads_itemTokens items sound.2.2) (separates_itemTokens items))
  | .object [] => exact .cons (by simp) (by simp) (.one (by simp))
  | .object ((key, value) :: members) =>
      simp only [toTokens, List.mem_cons, List.mem_append, not_or] at sound
      exact .cons (by simp) (by simp) (.cons (Ne.symm sound.2.1) (by simp)
        (.cons (by simp) (by simp) (.append (reads_toTokens value sound.2.2.2.1)
          (reads_memberTokens members sound.2.2.2.2) (separates_memberTokens members))))

theorem reads_itemTokens (items : List Json) (sound : .string none ∉ itemTokens items) :
    Reads (itemTokens items) := by
  match items with
  | [] => exact .one (by simp)
  | item :: items =>
      simp only [itemTokens, List.mem_cons, List.mem_append, not_or] at sound
      exact .cons (by simp) (by simp) (.append (reads_toTokens item sound.2.1)
        (reads_itemTokens items sound.2.2) (separates_itemTokens items))

theorem reads_memberTokens (members : List (Option String × Json))
    (sound : .string none ∉ memberTokens members) : Reads (memberTokens members) := by
  match members with
  | [] => exact .one (by simp)
  | (key, value) :: members =>
      simp only [memberTokens, List.mem_cons, List.mem_append, not_or] at sound
      exact .cons (by simp) (by simp) (.cons (Ne.symm sound.2.1) (by simp)
        (.cons (by simp) (by simp) (.append (reads_toTokens value sound.2.2.2.1)
          (reads_memberTokens members sound.2.2.2.2) (separates_memberTokens members))))

end

/-- A value is read back from its text. -/
theorem parse_compact {value : Json} (sound : .string none ∉ value.toTokens) :
    parse value.compact = .ok value := by
  have read := reads_toTokens value sound [] (by simp [EndsNumeral])
  rw [List.append_nil, tokens] at read
  rw [parse, compact_toList, read]
  simp [ofTokens?_toTokens]

end MergeCost.Json
