/-!
# Code point ranges

A class of characters is given by a list of closed code point ranges in ascending order.
Membership stops at the first range that begins above the code point; for an ascending list
that is exactly membership in one of the ranges.
-/

namespace TokenSearch.Text

/-- A closed range of code points, first and last. -/
abbrev CodeRange := Nat × Nat

namespace CodeRange

/-- Search an ascending list of ranges for the one that holds `n`. -/
def covers : List CodeRange → Nat → Bool
  | [], _ => false
  | (lo, hi) :: rest, n => if n < lo then false else if n ≤ hi then true else covers rest n

/-- Every range is non-empty and lies below all later ones. -/
def Ascending (ranges : List CodeRange) : Prop :=
  (∀ r ∈ ranges, r.1 ≤ r.2) ∧ ranges.Pairwise fun r s => r.2 < s.1

/-- A code point that the search finds lies in one of the ranges. -/
theorem exists_mem_of_covers {ranges : List CodeRange} {n : Nat} (h : covers ranges n = true) :
    ∃ r ∈ ranges, r.1 ≤ n ∧ n ≤ r.2 := by
  fun_induction covers ranges n with
  | case1 => simp at h
  | case2 => simp at h
  | case3 lo hi rest n hlo hhi => exact ⟨(lo, hi), by simp, by omega, hhi⟩
  | case4 lo hi rest n hlo hhi ih =>
    obtain ⟨r, hr, hn⟩ := ih h
    exact ⟨r, List.mem_cons_of_mem _ hr, hn⟩

/-- In an ascending list the search finds exactly the members of the ranges. -/
theorem covers_iff {ranges : List CodeRange} (asc : Ascending ranges) (n : Nat) :
    covers ranges n = true ↔ ∃ r ∈ ranges, r.1 ≤ n ∧ n ≤ r.2 := by
  refine ⟨exists_mem_of_covers, ?_⟩
  fun_induction covers ranges n with
  | case1 => simp
  | case2 lo hi rest n hlo =>
    rintro ⟨r, hr, hle, -⟩
    rcases List.mem_cons.1 hr with rfl | hr
    · exact absurd hle (by simpa using hlo)
    · have := (List.pairwise_cons.1 asc.2).1 r hr
      have := asc.1 (lo, hi) (by simp)
      simp only at *
      omega
  | case3 => simp
  | case4 lo hi rest n hlo hhi ih =>
    rintro ⟨r, hr, hle, hge⟩
    rcases List.mem_cons.1 hr with rfl | hr
    · exact absurd hge (by simpa using hhi)
    · exact ih ⟨fun r hr => asc.1 r (List.mem_cons_of_mem _ hr), (List.pairwise_cons.1 asc.2).2⟩
        ⟨r, hr, hle, hge⟩

end CodeRange

end TokenSearch.Text
