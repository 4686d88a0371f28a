import TokenSearch.Json.Quote
import TokenSearch.Proofs.Json.Spelling
import TokenSearch.Proofs.Traversal
import TokenSearch.Text.Decimal

/-!
# The spelling of written JSON

A string as it is written spells the string again, and an integer as it is written spells the
number that is this integer.
-/

namespace TokenSearch.Json

open Text (Scanned)

section Strings

/-- The value of a written hexadecimal digit. -/
theorem hexDigit?_digitChar {n : Nat} (h : n < 16) : hexDigit? (Nat.digitChar n) = some n := by
  have hall : ∀ k : Fin 16, hexDigit? (Nat.digitChar k) = some k.val := by decide
  exact hall ⟨n, h⟩

/-- A control character is the code unit of its two hexadecimal digits behind two zeros. -/
theorem codeUnit?_control {c : Char} (h : c < ' ') :
    codeUnit? (some '0') (some '0') (some (Nat.digitChar (c.toNat / 16)))
      (some (Nat.digitChar (c.toNat % 16))) = some c.toNat := by
  have hc : c.toNat < 32 := h
  have hzero : hexDigit? '0' = some 0 := rfl
  have hhigh := hexDigit?_digitChar (n := c.toNat / 16) (by omega)
  have hlow := hexDigit?_digitChar (n := c.toNat % 16) (by omega)
  simp only [codeUnit?, bind, Option.bind, hzero, hhigh, hlow, pure, Option.some.injEq]
  omega

/-- A code unit below the surrogates is the character with this number. -/
theorem pieceOf_toNat {c : Char} (h : c < ' ') : pieceOf c.toNat = .char (some c) := by
  have hc : c.toNat < 32 := h
  rw [pieceOf, if_neg (by omega), Char.ofNat_toNat]

/-- A character as it stands in a written string is one piece. -/
theorem IsBody.escape (c : Char) {body : Scanned} {pieces : List Piece} (h : IsBody body pieces) :
    IsBody ((Json.escape c).map some ++ body) (.char (some c) :: pieces) := by
  unfold Json.escape
  split
  case h_8 hquote hslash _ _ _ _ _ =>
    split
    · rename_i hcontrol
      have hunit := IsBody.unit (codeUnit?_control hcontrol) h
      rwa [pieceOf_toNat hcontrol] at hunit
    · rename_i hplain
      exact .plain hplain hquote hslash h
  all_goals exact .letter rfl h

/-- The characters of a written string are its pieces. -/
theorem isBody_flatMap_escape (cs : List Char) :
    IsBody ((cs.flatMap escape).map some) (cs.map fun c => .char (some c)) := by
  induction cs with
  | nil => exact .nil
  | cons c cs ih =>
    rw [List.flatMap_cons, List.map_append]
    exact ih.escape c

/-- Pieces that are characters are joined to themselves. -/
theorem joinHalves_char (cs : List Char) :
    joinHalves (cs.map fun c => .char (some c)) = cs.map some := by
  induction cs with
  | nil => rfl
  | cons c cs ih => rw [List.map_cons, joinHalves, ih, List.map_cons]

/-- A written string spells the string. -/
theorem isSpelling_quote (s : String) :
    IsSpelling ((quote s).toList.map some) (.string (s.toList.map some)) := by
  have hspelling := IsSpelling.string (isBody_flatMap_escape s.toList)
  rw [joinHalves_char] at hspelling
  simpa [quote] using hspelling

/-- The text of a string that was written is known. -/
@[simp] theorem known?_map_some (s : String) : known? (s.toList.map some) = some s := by
  have hread (c : Char) : id (some c) = some (id c) := rfl
  rw [known?, mapM_map_some hread, List.map_id, Option.map_some, String.ofList_toList]

end Strings

section Numbers

/-- An integer as it is written. -/
def Numeral.ofInt (n : Int) : Numeral := ⟨n < 0, Nat.toDigits 10 n.natAbs, [], none⟩

/-- The value of a written integer. -/
theorem Numeral.integer?_ofInt (n : Int) : (ofInt n).integer? = some n := by
  simp only [integer?, ofInt, List.isEmpty_nil, Option.isNone_none, Bool.and_self, if_true,
    Nat.ofDigitChars_ten_toDigits, decide_eq_true_eq]
  split
  · rw [if_neg (by omega)]
    exact congrArg some (by omega)
  · exact congrArg some (by omega)

/-- The digits of a positive number begin with no zero. -/
theorem head?_toDigits {n : Nat} (h : n ≠ 0) : (Nat.toDigits 10 n).head? ≠ some '0' := by
  induction n using Nat.strongRecOn with
  | ind n ih =>
    by_cases hn : n < 10
    · have hall : ∀ k : Fin 10, k.val ≠ 0 → some (Nat.digitChar k) ≠ some '0' := by decide
      rw [Nat.toDigits_of_lt_base hn]
      exact hall ⟨n, hn⟩ h
    · have hfront := ih (n / 10) (by omega) (by omega)
      rw [Nat.toDigits_of_base_le (by decide) (by omega)]
      cases hdigits : Nat.toDigits 10 (n / 10) with
      | nil => exact absurd hdigits Nat.toDigits_ne_nil
      | cons c digits => rwa [hdigits] at hfront

/-- The digits of a number are its whole part. -/
theorem isMagnitude_toDigits (negative : Bool) (n : Nat) :
    IsMagnitude negative ((Nat.toDigits 10 n).map some)
      ⟨negative, Nat.toDigits 10 n, [], none⟩ := by
  have hdigits : AreDigits (Nat.toDigits 10 n) :=
    ⟨Nat.toDigits_ne_nil, fun _ hc => Nat.isDigit_of_mem_toDigits (by decide) (by decide) hc⟩
  have hzero : (Nat.toDigits 10 n).head? = some '0' → Nat.toDigits 10 n = ['0'] := by
    intro hhead
    by_cases hn : n = 0
    · rw [hn, Nat.toDigits_zero]
    · exact absurd hhead (head?_toDigits hn)
  simpa using IsMagnitude.mk hdigits hzero .absent .absent

/-- A written integer spells the number. -/
theorem isSpelling_signed (n : Int) :
    IsSpelling ((Text.Decimal.signed n).toList.map some) (.atom (.number (.ofInt n))) := by
  unfold Text.Decimal.signed Text.Decimal.natural Numeral.ofInt
  split
  · rename_i hn
    rw [String.toList_append, String.toList_ofList (l := Nat.toDigits 10 n.natAbs),
      decide_eq_true hn]
    exact .negative (isMagnitude_toDigits true n.natAbs)
  · rename_i hn
    rw [String.toList_ofList, decide_eq_false hn]
    exact .natural (isMagnitude_toDigits false n.natAbs)

end Numbers

end TokenSearch.Json
