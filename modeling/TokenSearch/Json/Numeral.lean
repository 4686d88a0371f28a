/-!
# Numbers of JSON texts

A number is kept as it is written. Without fraction and exponent it is an integer; any other
number is read in double precision, and it can be read if the result is finite. The reading takes
the leading digits that make a 64-bit integer, rounds this integer and the power of ten that goes
with it to doubles, and rounds their product. So the range ends where that product overflows,
which for some numbers is slightly before or behind the range of their exact values.
-/

namespace TokenSearch.Json

/-- A number as it is written. -/
structure Numeral where
  negative : Bool
  /-- The digits before the point. -/
  whole : List Char
  /-- The digits behind the point, if there is one. -/
  fraction : List Char
  exponent : Option Int
  deriving DecidableEq, Repr

/-- Append digits to a value below `2 ^ 64` as long as it stays below. The digits left over begin
with the first one that does not fit. -/
def appendDigits (value : Nat) : List Char → Nat × List Char
  | [] => (value, [])
  | c :: cs =>
    let next := value * 10 + (c.toNat - '0'.toNat)
    if next < 18446744073709551616 then appendDigits next cs else (value, c :: cs)

/-- The double nearest to an integer, without regard to its range: the nearest number with 53
significant bits, of two equally near ones the one that ends in a zero bit. -/
def roundToDouble (n : Nat) : Nat :=
  let unit := Nat.pow 2 (n.log2 - 52)
  let floor := n / unit
  let rest := n % unit
  if unit < 2 * rest ∨ (unit = 2 * rest ∧ floor % 2 = 1) then (floor + 1) * unit else floor * unit

/-- The least magnitude that rounds to no finite double, `2 ^ 1024 - 2 ^ 970`. -/
def overflowBound : Nat := Nat.pow 2 1024 - Nat.pow 2 970

namespace Numeral

/-- The value of a number that has neither a fraction nor an exponent. A negative zero is no
integer. -/
def integer? (n : Numeral) : Option Int :=
  if n.fraction.isEmpty && n.exponent.isNone then
    let value := Nat.ofDigitChars 10 n.whole 0
    if n.negative then (if value = 0 then none else some (-(value : Int))) else some value
  else none

/-- The leading digits of a number as an integer, and the power of ten that scales it. A digit
left over before the point still counts as a place; one behind the point does not. -/
def leading (n : Numeral) : Nat × Int :=
  let (whole, leftBefore) := appendDigits 0 n.whole
  let (value, leftBehind) := appendDigits whole n.fraction
  (value, n.exponent.getD 0 + leftBefore.length + leftBehind.length - n.fraction.length)

/-- Whether a number is read as a finite double. A fraction is never too large, and a scale above
`10 ^ 308` is too large for everything but zero. -/
def isFinite (n : Numeral) : Bool :=
  let (value, scale) := n.leading
  value = 0 || scale < 0 ||
    scale ≤ 308 && roundToDouble value * roundToDouble (Nat.pow 10 scale.toNat) < overflowBound

end Numeral

/-- An integer of at most 53 bits is a double. -/
theorem roundToDouble_eq_self {n : Nat} (h : n < 9007199254740992) : roundToDouble n = n := by
  have hlog : n.log2 - 52 = 0 := by
    rcases Nat.eq_zero_or_pos n with rfl | hpos
    · rfl
    · have hlt : n.log2 < 53 := (Nat.log2_lt (Nat.ne_of_gt hpos)).2 h
      omega
  simp only [roundToDouble, hlog]
  rw [show Nat.pow 2 0 = 1 from rfl, Nat.mod_one, Nat.div_one, Nat.mul_one, Nat.mul_one]
  rw [if_neg (by omega)]

end TokenSearch.Json
