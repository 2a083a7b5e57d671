/-!
JSON strings: what is escaped when one is written, and what the characters between the quotation
marks stand for when one is read.
-/

namespace MergeCost.Json

/-- A character between the quotation marks, or the 16-bit unit that an escape names. -/
inductive Piece where
  | char (c : Char)
  | unit (code : Nat)
deriving Repr, DecidableEq

def isHighSurrogate (code : Nat) : Bool := 0xd800 ≤ code && code ≤ 0xdbff

def isLowSurrogate (code : Nat) : Bool := 0xdc00 ≤ code && code ≤ 0xdfff

/-- The character of a surrogate pair. -/
def joinSurrogates (high low : Nat) : Char :=
  Char.ofNat (0x10000 + (high - 0xd800) * 0x400 + (low - 0xdc00))

/-- The characters that the pieces stand for, if each half of a surrogate pair has its other
half. -/
def decode : List Piece → Option (List Char)
  | [] => some []
  | .char c :: rest => (decode rest).map (c :: ·)
  | .unit code :: rest =>
      if isLowSurrogate code then none
      else if isHighSurrogate code then
        match rest with
        | .unit low :: rest =>
            if isLowSurrogate low then (decode rest).map (joinSurrogates code low :: ·) else none
        | _ => none
      else (decode rest).map (Char.ofNat code :: ·)

def hexValue? (c : Char) : Option Nat :=
  if '0' ≤ c ∧ c ≤ '9' then some (c.toNat - '0'.toNat)
  else if 'a' ≤ c ∧ c ≤ 'f' then some (c.toNat - 'a'.toNat + 10)
  else if 'A' ≤ c ∧ c ≤ 'F' then some (c.toNat - 'A'.toNat + 10)
  else none

/-- The unit that four hexadecimal digits name. -/
def unitOf? (digits : List Char) : Option Nat :=
  digits.foldlM (fun value c => (hexValue? c).map (16 * value + ·)) 0

/-- The character that a letter after a reverse solidus stands for. -/
def escaped? : Char → Option Char
  | '\x22' => some '\x22'
  | '\x5c' => some '\x5c'
  | '/' => some '/'
  | 'b' => some '\x08'
  | 'f' => some '\x0c'
  | 'n' => some '\n'
  | 'r' => some '\r'
  | 't' => some '\t'
  | _ => none

/-- Reads up to the closing quotation mark and gives the rest of the text after it. -/
def scanString : List Char → Option (List Piece × List Char)
  | [] => none
  | '\x22' :: rest => some ([], rest)
  | '\x5c' :: 'u' :: a :: b :: c :: d :: rest => do
      let code ← unitOf? [a, b, c, d]
      let (pieces, rest) ← scanString rest
      return (.unit code :: pieces, rest)
  | '\x5c' :: c :: rest => do
      let plain ← escaped? c
      let (pieces, rest) ← scanString rest
      return (.char plain :: pieces, rest)
  | c :: rest => if c < ' ' then none else do
      let (pieces, rest) ← scanString rest
      return (.char c :: pieces, rest)

theorem scanString_length {text rest : List Char} {pieces : List Piece}
    (scanned : scanString text = some (pieces, rest)) : rest.length < text.length := by
  fun_induction scanString text generalizing pieces rest with
  | case1 => simp at scanned
  | case2 tail => simp_all
  | case3 a b c d tail ih =>
      simp only [Option.bind_eq_bind, Option.bind_eq_some_iff, Option.pure_def, Option.some.injEq,
        Prod.mk.injEq, Prod.exists] at scanned
      obtain ⟨_, _, _, _, inner, _, rfl⟩ := scanned
      have := ih inner
      simp only [List.length_cons]
      omega
  | case4 c tail _ ih =>
      simp only [Option.bind_eq_bind, Option.bind_eq_some_iff, Option.pure_def, Option.some.injEq,
        Prod.mk.injEq, Prod.exists] at scanned
      obtain ⟨_, _, _, _, inner, _, rfl⟩ := scanned
      have := ih inner
      simp only [List.length_cons]
      omega
  | case5 => contradiction
  | case6 c tail _ _ _ _ ih =>
      simp only [Option.bind_eq_bind, Option.bind_eq_some_iff, Option.pure_def, Option.some.injEq,
        Prod.mk.injEq, Prod.exists] at scanned
      obtain ⟨_, _, inner, _, rfl⟩ := scanned
      have := ih inner
      simp only [List.length_cons]
      omega

def hexDigit (value : Nat) : Char := Nat.digitChar (value % 16)

/-- The letter that stands for a character after a reverse solidus; only some characters have
one. -/
def letter? : Char → Option Char
  | '\x22' => some '\x22'
  | '\x5c' => some '\x5c'
  | '\x08' => some 'b'
  | '\x0c' => some 'f'
  | '\n' => some 'n'
  | '\r' => some 'r'
  | '\t' => some 't'
  | _ => none

/-- A character as it is written between quotation marks. Only the quotation mark, the reverse
solidus and control characters are escaped. -/
def escape (c : Char) : List Char :=
  match letter? c with
  | some letter => ['\x5c', letter]
  | none =>
      if c < ' ' then ['\x5c', 'u', '0', '0', hexDigit (c.toNat / 16), hexDigit c.toNat] else [c]

def encode (text : List Char) : List Char := text.flatMap escape

def quote (text : String) : String := "\x22" ++ String.ofList (encode text.toList) ++ "\x22"

end MergeCost.Json
