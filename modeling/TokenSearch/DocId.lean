import Std.Data.ExtTreeSet
import TokenSearch.Text.Decimal

/-!
# Document ids

Documents are numbered with signed 32-bit integers. Sets of ids are kept in ascending order and
are equal when they have the same members.
-/

namespace TokenSearch

/-- The number of a document. -/
abbrev DocId := Int32

/-- A set of document ids, listed in ascending order. -/
abbrev IdSet := Std.ExtTreeSet DocId

/-- The ids of a set are listed in ascending order. -/
theorem pairwise_toList (ids : IdSet) : ids.toList.Pairwise (· < ·) :=
  ids.ordered_toList.imp Std.compare_eq_lt.1

namespace DocId

/-- The id of a number, if the number lies in the signed 32-bit range. -/
def ofInt? (n : Int) : Option DocId :=
  if -2147483648 ≤ n ∧ n ≤ 2147483647 then some (Int32.ofInt n) else none

/-- The id that a decimal number in the range stands for. -/
def ofText? (s : String) : Option DocId :=
  (Text.Decimal.signed? s.toList).bind ofInt?

/-- The decimal form of an id. -/
def text (id : DocId) : String := Text.Decimal.signed id.toInt

/-- A number in the range is the value of its id. -/
theorem ofInt?_eq_some_iff {n : Int} {id : DocId} : ofInt? n = some id ↔ id.toInt = n := by
  unfold ofInt?
  split
  · rename_i h
    have hn : (Int32.ofInt n).toInt = n := Int32.toInt_ofInt_of_le (by omega) (by omega)
    rw [Option.some.injEq, ← Int32.toInt_inj, hn]
    exact eq_comm
  · rename_i h
    refine ⟨nofun, fun hid => absurd ?_ h⟩
    have hlow := Int32.le_toInt id
    have hhigh := Int32.toInt_lt id
    omega

/-- A written id is read back. -/
theorem ofText?_text (id : DocId) : ofText? id.text = some id := by
  rw [ofText?, text, Text.Decimal.signed?_signed, Option.bind_some, ofInt?_eq_some_iff]

end DocId

end TokenSearch
