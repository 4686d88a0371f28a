import TokenSearch.Expr.Parse
import TokenSearch.Index
import TokenSearch.NormalForm

/-!
# Search

A query is answered from its normal form: the ids of a group are those in the posting sets of
all its tokens, and the answer is the union over the groups. A token that no document contains
leaves its group without ids, and a group without tokens has none.
-/

namespace TokenSearch

namespace Index

/-- Put a set before the first one that is no smaller. -/
def insertBySize (ids : IdSet) : List IdSet → List IdSet
  | [] => [ids]
  | other :: others =>
    if ids.size ≤ other.size then ids :: other :: others else other :: insertBySize ids others

/-- Sets in the order of their sizes. -/
def sortBySize (sets : List IdSet) : List IdSet := sets.foldr insertBySize []

/-- The ids in all posting sets of a group. The search ends early when one of the sets is empty,
and it begins with the smallest one, so that few ids are looked at. -/
def matchGroup (index : Index) (group : Group) : IdSet :=
  let sets := group.map index.postings
  if sets.any (·.isEmpty) then ∅
  else match sortBySize sets with
    | [] => ∅
    | smallest :: others => others.foldl (· ∩ ·) smallest

theorem mem_insertBySize {ids s : IdSet} {sets : List IdSet} :
    s ∈ insertBySize ids sets ↔ s = ids ∨ s ∈ sets := by
  induction sets with
  | nil => simp [insertBySize]
  | cons other others ih =>
    unfold insertBySize
    split
    · simp
    · rw [List.mem_cons, ih, List.mem_cons, or_left_comm]

/-- Sorting keeps the sets. -/
theorem mem_sortBySize {s : IdSet} {sets : List IdSet} : s ∈ sortBySize sets ↔ s ∈ sets := by
  induction sets with
  | nil => simp [sortBySize]
  | cons ids sets ih =>
    rw [sortBySize, List.foldr_cons, mem_insertBySize, List.mem_cons]
    exact or_congr Iff.rfl ih

theorem mem_foldl_inter {d : DocId} {smallest : IdSet} {others : List IdSet} :
    d ∈ others.foldl (· ∩ ·) smallest ↔ d ∈ smallest ∧ ∀ s ∈ others, d ∈ s := by
  induction others generalizing smallest with
  | nil => simp
  | cons other others ih => simp [ih, and_assoc]

/-- A group with tokens matches the ids that are in the posting sets of all of them. -/
theorem mem_matchGroup {index : Index} {group : Group} {d : DocId} :
    d ∈ index.matchGroup group ↔ group ≠ [] ∧ ∀ token ∈ group, d ∈ index.postings token := by
  unfold matchGroup
  have hall : (∀ token ∈ group, d ∈ index.postings token) ↔
      ∀ s ∈ sortBySize (group.map index.postings), d ∈ s := by
    simp [mem_sortBySize]
  simp only
  split
  · rename_i hany
    obtain ⟨token, ht, hempty⟩ : ∃ token ∈ group, (index.postings token).isEmpty = true := by
      simpa using hany
    refine ⟨fun h => absurd h Std.ExtTreeSet.not_mem_empty, fun h => ?_⟩
    have hmem := h.2 token ht
    rw [Std.ExtTreeSet.isEmpty_iff.1 hempty] at hmem
    exact absurd hmem Std.ExtTreeSet.not_mem_empty
  · split
    · rename_i hsort
      have hnil : group = [] := by
        cases group with
        | nil => rfl
        | cons token group =>
          have hmem : index.postings token ∈ sortBySize ((token :: group).map index.postings) :=
            mem_sortBySize.2 (by simp)
          rw [hsort] at hmem
          cases hmem
      simp [hnil]
    · rename_i smallest others hsort
      have hne : group ≠ [] := by
        rintro rfl
        simp [sortBySize] at hsort
      rw [mem_foldl_inter, hall, hsort, List.forall_mem_cons]
      simp [hne]

/-- The ids of the documents that match a normal form. -/
def evaluate (index : Index) (form : NormalForm) : IdSet :=
  match form.groups with
  | [[token]] => index.postings token
  | [group] => index.matchGroup group
  | groups => groups.foldl (fun ids group => ids ∪ index.matchGroup group) ∅

theorem mem_foldl_matchGroup {index : Index} {groups : List Group} {ids : IdSet} {d : DocId} :
    d ∈ groups.foldl (fun ids group => ids ∪ index.matchGroup group) ids ↔
      d ∈ ids ∨ ∃ group ∈ groups, d ∈ index.matchGroup group := by
  induction groups generalizing ids with
  | nil => simp
  | cons group groups ih => simp [ih, or_assoc]

/-- A form matches the ids that some group with tokens matches. -/
theorem mem_evaluate {index : Index} {form : NormalForm} {d : DocId} :
    d ∈ index.evaluate form ↔
      ∃ group ∈ form.groups, group ≠ [] ∧ ∀ token ∈ group, d ∈ index.postings token := by
  unfold evaluate
  split
  · rename_i token h
    simp [h]
  · rename_i group _ h
    simp [h, mem_matchGroup]
  · simp [mem_foldl_matchGroup, mem_matchGroup]

/-- The ids of the documents that match the text of an expression. -/
def search (index : Index) (query : String) : Except ParseFault IdSet :=
  (Expr.parse query).map fun e => index.evaluate (NormalForm.ofExpr e)

end Index

end TokenSearch
