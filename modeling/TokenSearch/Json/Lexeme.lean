import TokenSearch.Json

/-!
# Lexemes of JSON

Strings are read as scanned characters: an escape that stands for half of a surrogate pair
gives no character, as does a malformed byte sequence. Control characters must be escaped.
-/

namespace TokenSearch.Json

open Text (Scanned)

/-- A part of a JSON text. -/
inductive Lexeme
  | openArray
  | closeArray
  | openObject
  | closeObject
  | comma
  | colon
  | string (value : Scanned)
  /-- A number or one of the three names. -/
  | atom (value : Json)
  /-- What begins here is no part of a JSON text. -/
  | malformed
  deriving Repr

/-- A part of a string: a character, or half of a surrogate pair. -/
inductive Piece
  | char (c : Option Char)
  | half (unit : Nat)
  deriving DecidableEq, Repr

/-- The characters of the pieces of a string. A high half and the low half right behind it make
one character. -/
def joinHalves : List Piece → Scanned
  | [] => []
  | .char c :: rest => c :: joinHalves rest
  | .half high :: .half low :: rest =>
    if high < 0xDC00 ∧ 0xDC00 ≤ low then
      some (Char.ofNat (0x10000 + (high - 0xD800) * 0x400 + (low - 0xDC00))) :: joinHalves rest
    else none :: joinHalves (.half low :: rest)
  | .half _ :: rest => none :: joinHalves rest

/-- The value of a hexadecimal digit. -/
def hexDigit? (c : Char) : Option Nat :=
  if '0' ≤ c ∧ c ≤ '9' then some (c.toNat - '0'.toNat)
  else if 'a' ≤ c ∧ c ≤ 'f' then some (c.toNat - 'a'.toNat + 10)
  else if 'A' ≤ c ∧ c ≤ 'F' then some (c.toNat - 'A'.toNat + 10)
  else none

/-- The code unit that four hexadecimal digits stand for. -/
def codeUnit? (a b c d : Option Char) : Option Nat := do
  let a ← hexDigit? (← a)
  let b ← hexDigit? (← b)
  let c ← hexDigit? (← c)
  let d ← hexDigit? (← d)
  pure (a * 0x1000 + b * 0x100 + c * 0x10 + d)

/-- The piece that a code unit makes. -/
def pieceOf (unit : Nat) : Piece :=
  if 0xD800 ≤ unit ∧ unit < 0xE000 then .half unit else .char (some (Char.ofNat unit))

/-- The character that a one-letter escape stands for. -/
def unescape? : Char → Option Char
  | '"' => some '"'
  | '\\' => some '\\'
  | '/' => some '/'
  | 'b' => some '\x08'
  | 'f' => some '\x0c'
  | 'n' => some '\n'
  | 'r' => some '\r'
  | 't' => some '\t'
  | _ => none

/-- The pieces of a string up to its closing quote, and what stands behind the quote. -/
def readPieces : Scanned → Option (List Piece × Scanned)
  | some '"' :: rest => some ([], rest)
  | some '\\' :: some 'u' :: a :: b :: c :: d :: rest =>
    match codeUnit? a b c d, readPieces rest with
    | some unit, some (pieces, rest') => some (pieceOf unit :: pieces, rest')
    | _, _ => none
  | some '\\' :: some e :: rest =>
    match unescape? e, readPieces rest with
    | some c, some (pieces, rest') => some (.char (some c) :: pieces, rest')
    | _, _ => none
  | some '\\' :: _ => none
  | some c :: rest =>
    if c < ' ' then none
    else match readPieces rest with
      | some (pieces, rest') => some (.char (some c) :: pieces, rest')
      | none => none
  | none :: rest =>
    match readPieces rest with
    | some (pieces, rest') => some (.char none :: pieces, rest')
    | none => none
  | [] => none

/-- A string ends before the text does. -/
theorem length_of_readPieces {cs rest : Scanned} {pieces : List Piece}
    (h : readPieces cs = some (pieces, rest)) : rest.length < cs.length := by
  fun_induction readPieces cs generalizing pieces rest with
  | case1 tail =>
    obtain ⟨-, rfl⟩ := Prod.mk.inj (Option.some.inj h)
    exact Nat.lt_succ_self _
  | case2 a b c d tail unit pieces' rest' hr hu ih =>
    obtain ⟨-, rfl⟩ := Prod.mk.inj (Option.some.inj h)
    have hlt := ih hr
    simp only [List.length_cons]
    omega
  | case4 e tail he c pieces' rest' hr hc ih =>
    obtain ⟨-, rfl⟩ := Prod.mk.inj (Option.some.inj h)
    have hlt := ih hr
    simp only [List.length_cons]
    omega
  | case8 c tail _ _ _ _ _ pieces' rest' hr ih =>
    obtain ⟨-, rfl⟩ := Prod.mk.inj (Option.some.inj h)
    exact Nat.lt_succ_of_lt (ih hr)
  | case10 tail pieces' rest' hr ih =>
    obtain ⟨-, rfl⟩ := Prod.mk.inj (Option.some.inj h)
    exact Nat.lt_succ_of_lt (ih hr)
  | case3 | case5 | case6 | case7 | case9 | case11 | case12 => cases h

/-- The digits at the front of a text. -/
def leadingDigits : Scanned → List Char
  | some c :: rest => if c.isDigit then c :: leadingDigits rest else []
  | _ => []

/-- The digits before the point: a zero, or a run of digits that begins with no zero. -/
def wholeDigits (cs : Scanned) : List Char :=
  match leadingDigits cs with
  | '0' :: _ => ['0']
  | digits => digits

/-- The digits behind a point, if there is a point; at least one has to follow it. -/
def readFraction : Scanned → Option (List Char × Scanned)
  | some '.' :: rest =>
    match leadingDigits rest with
    | [] => none
    | digits => some (digits, rest.drop digits.length)
  | cs => some ([], cs)

/-- The digits of an exponent; at least one has to stand. -/
def readExponentDigits (negative : Bool) (cs : Scanned) : Option (Option Int × Scanned) :=
  match leadingDigits cs with
  | [] => none
  | digits =>
    let value : Int := Nat.ofDigitChars 10 digits 0
    some (some (if negative then -value else value), cs.drop digits.length)

/-- The exponent behind a mark, if there is a mark. -/
def readExponent : Scanned → Option (Option Int × Scanned)
  | some c :: rest =>
    if c = 'e' ∨ c = 'E' then
      match rest with
      | some '+' :: rest' => readExponentDigits false rest'
      | some '-' :: rest' => readExponentDigits true rest'
      | _ => readExponentDigits false rest
    else some (none, some c :: rest)
  | cs => some (none, cs)

/-- A number without its sign, and what stands behind it. -/
def readMagnitude (negative : Bool) (cs : Scanned) : Option (Lexeme × Scanned) :=
  let whole := wholeDigits cs
  if whole = [] then none
  else match readFraction (cs.drop whole.length) with
    | none => none
    | some (fraction, rest) =>
      match readExponent rest with
      | none => none
      | some (exponent, rest') =>
        some (.atom (.number ⟨negative, whole, fraction, exponent⟩), rest')

/-- A name whose first character has been read, and what stands behind it. -/
def readName (tail : Scanned) (value : Json) (rest : Scanned) : Option (Lexeme × Scanned) :=
  if tail.isPrefixOf rest then some (.atom value, rest.drop tail.length) else none

/-- The lexeme that begins with a character, and what stands behind it. -/
def readLexeme (c : Char) (rest : Scanned) : Option (Lexeme × Scanned) :=
  match c with
  | '[' => some (.openArray, rest)
  | ']' => some (.closeArray, rest)
  | '\x7b' => some (.openObject, rest)
  | '\x7d' => some (.closeObject, rest)
  | ',' => some (.comma, rest)
  | ':' => some (.colon, rest)
  | '"' =>
    match readPieces rest with
    | some (pieces, rest') => some (.string (joinHalves pieces), rest')
    | none => none
  | 'n' => readName [some 'u', some 'l', some 'l'] .null rest
  | 't' => readName [some 'r', some 'u', some 'e'] (.bool true) rest
  | 'f' => readName [some 'a', some 'l', some 's', some 'e'] (.bool false) rest
  | '-' => readMagnitude true rest
  | c => readMagnitude false (some c :: rest)

theorem length_of_readFraction {cs rest : Scanned} {digits : List Char}
    (h : readFraction cs = some (digits, rest)) : rest.length ≤ cs.length := by
  unfold readFraction at h
  split at h
  · split at h
    · cases h
    · obtain ⟨-, rfl⟩ := Prod.mk.inj (Option.some.inj h)
      simp only [List.length_drop, List.length_cons]
      omega
  · obtain ⟨-, rfl⟩ := Prod.mk.inj (Option.some.inj h)
    exact Nat.le_refl _

theorem length_of_readExponentDigits {negative : Bool} {cs rest : Scanned} {n : Option Int}
    (h : readExponentDigits negative cs = some (n, rest)) : rest.length ≤ cs.length := by
  unfold readExponentDigits at h
  split at h
  · cases h
  · obtain ⟨-, rfl⟩ := Prod.mk.inj (Option.some.inj h)
    simp only [List.length_drop]
    omega

theorem length_of_readExponent {cs rest : Scanned} {n : Option Int}
    (h : readExponent cs = some (n, rest)) : rest.length ≤ cs.length := by
  unfold readExponent at h
  split at h
  · split at h
    · split at h
      all_goals
        have hle := length_of_readExponentDigits h
        simp only [List.length_cons] at hle ⊢
        omega
    · obtain ⟨-, rfl⟩ := Prod.mk.inj (Option.some.inj h)
      exact Nat.le_refl _
  · obtain ⟨-, rfl⟩ := Prod.mk.inj (Option.some.inj h)
    exact Nat.le_refl _

/-- A number has at least one digit. -/
theorem length_of_readMagnitude {negative : Bool} {cs rest : Scanned} {l : Lexeme}
    (h : readMagnitude negative cs = some (l, rest)) : rest.length < cs.length := by
  simp only [readMagnitude] at h
  split at h
  · simp at h
  · rename_i hne
    have hpos : 0 < (wholeDigits cs).length := List.length_pos_iff.2 hne
    have hcs : 0 < cs.length := List.length_pos_iff.2 (by rintro rfl; exact hne rfl)
    split at h
    · simp at h
    · rename_i h₁
      split at h
      · simp at h
      · rename_i h₂
        have e₁ := length_of_readFraction h₁
        have e₂ := length_of_readExponent h₂
        simp only [List.length_drop, Option.some.injEq, Prod.mk.injEq] at e₁ h
        obtain ⟨-, rfl⟩ := h
        omega

theorem length_of_readName {tail rest rest' : Scanned} {value : Json} {l : Lexeme}
    (h : readName tail value rest = some (l, rest')) : rest'.length ≤ rest.length := by
  unfold readName at h
  split at h
  · obtain ⟨-, rfl⟩ := Prod.mk.inj (Option.some.inj h)
    simp only [List.length_drop]
    omega
  · cases h

/-- A lexeme takes at least its first character. -/
theorem length_of_readLexeme {c : Char} {rest rest' : Scanned} {l : Lexeme}
    (h : readLexeme c rest = some (l, rest')) : rest'.length ≤ rest.length := by
  unfold readLexeme at h
  split at h
  case h_7 =>
    split at h
    · rename_i hp
      obtain ⟨-, rfl⟩ := Prod.mk.inj (Option.some.inj h)
      exact Nat.le_of_lt (length_of_readPieces hp)
    · cases h
  case h_8 | h_9 | h_10 => exact length_of_readName h
  case h_11 => exact Nat.le_of_lt (length_of_readMagnitude h)
  case h_12 => exact Nat.le_of_lt_succ (length_of_readMagnitude h)
  all_goals
    obtain ⟨-, rfl⟩ := Prod.mk.inj (Option.some.inj h)
    exact Nat.le_refl _

/-- The characters that may stand between the lexemes of a JSON text. -/
def isSpace (c : Char) : Bool := c = ' ' || c = '\t' || c = '\n' || c = '\r'

/-- The lexemes of a JSON text, up to the first malformed one. -/
def lexemes (cs : Scanned) : List Lexeme :=
  match cs with
  | [] => []
  | none :: _ => [.malformed]
  | some c :: rest =>
    if isSpace c then lexemes rest
    else match _h : readLexeme c rest with
      | some (lexeme, rest') => lexeme :: lexemes rest'
      | none => [.malformed]
termination_by cs.length
decreasing_by
  · simp
  · exact Nat.lt_succ_of_le (length_of_readLexeme _h)

end TokenSearch.Json
