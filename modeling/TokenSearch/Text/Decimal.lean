/-!
# Signed decimal numbers

A decimal number is an optional sign followed by ASCII digits. The written form has no plus
sign and no leading zeros; reading accepts both.
-/

namespace TokenSearch.Text.Decimal

/-- The value of a non-empty run of ASCII digits. -/
def natural? (cs : List Char) : Option Nat :=
  if !cs.isEmpty && cs.all Char.isDigit then some (Nat.ofDigitChars 10 cs 0) else none

/-- The value of a run of digits after an optional sign. -/
def signed? : List Char → Option Int
  | '-' :: cs => (natural? cs).map fun n : Nat => -(n : Int)
  | '+' :: cs => (natural? cs).map Int.ofNat
  | cs => (natural? cs).map Int.ofNat

/-- The text of a natural number. -/
def natural (n : Nat) : String := String.ofList (Nat.toDigits 10 n)

/-- The text of an integer: its digits, after a minus sign if it is negative. -/
def signed (n : Int) : String := if n < 0 then "-" ++ natural n.natAbs else natural n.natAbs

/-- The digits of a number are read as that number. -/
theorem natural?_toDigits (n : Nat) : natural? (Nat.toDigits 10 n) = some n := by
  have hall : (Nat.toDigits 10 n).all Char.isDigit = true :=
    List.all_eq_true.2 fun _ hc => Nat.isDigit_of_mem_toDigits (by decide) (by decide) hc
  have hne : (Nat.toDigits 10 n).isEmpty = false := by
    cases h : Nat.toDigits 10 n with
    | nil => exact absurd h Nat.toDigits_ne_nil
    | cons => rfl
  rw [natural?, hall, hne, Nat.ofDigitChars_ten_toDigits]
  rfl

/-- Without a sign in front, a number is read as a natural number. -/
theorem signed?_of_isDigit {c : Char} {cs : List Char} (h : c.isDigit = true) :
    signed? (c :: cs) = (natural? (c :: cs)).map Int.ofNat := by
  unfold signed?
  split
  · exact absurd h (by rename_i hc; cases hc; decide)
  · exact absurd h (by rename_i hc; cases hc; decide)
  · rfl

theorem signed?_toDigits (n : Nat) : signed? (Nat.toDigits 10 n) = some (n : Int) := by
  cases h : Nat.toDigits 10 n with
  | nil => exact absurd h Nat.toDigits_ne_nil
  | cons c cs =>
    have hc : c ∈ Nat.toDigits 10 n := h ▸ List.mem_cons_self
    rw [signed?_of_isDigit (Nat.isDigit_of_mem_toDigits (by decide) (by decide) hc), ← h,
      natural?_toDigits]
    rfl

/-- A written number is read back. -/
theorem signed?_signed (n : Int) : signed? (signed n).toList = some n := by
  unfold signed natural
  split
  · rename_i h
    rw [String.toList_append, String.toList_ofList, String.toList_ofList]
    simp only [List.cons_append, List.nil_append, signed?, natural?_toDigits, Option.map_some]
    exact congrArg some (by omega)
  · rename_i h
    rw [String.toList_ofList, signed?_toDigits]
    exact congrArg some (by omega)

/-- A written number is not empty. -/
theorem toList_signed_ne_nil (n : Int) : (signed n).toList ≠ [] := by
  intro h
  have hread := signed?_signed n
  rw [h] at hread
  cases hread

/-- A natural number is written with digits. -/
theorem isDigit_of_mem_natural {n : Nat} {c : Char} (h : c ∈ (natural n).toList) :
    c.isDigit = true := by
  rw [natural, String.toList_ofList] at h
  exact Nat.isDigit_of_mem_toDigits (by decide) (by decide) h

/-- A number is written with digits and the minus sign. -/
theorem eq_minus_or_isDigit_of_mem_signed {n : Int} {c : Char} (h : c ∈ (signed n).toList) :
    c = '-' ∨ c.isDigit = true := by
  unfold signed at h
  split at h
  · rw [String.toList_append, List.mem_append] at h
    exact h.imp List.mem_singleton.1 isDigit_of_mem_natural
  · exact .inr (isDigit_of_mem_natural h)

end TokenSearch.Text.Decimal
