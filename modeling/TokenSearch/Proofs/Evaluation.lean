import Mathlib.Data.List.Forall2
import TokenSearch.Search

/-!
# Ways to evaluate a normal form

An evaluation may take the posting sets of a group in any order and go through the members of the
first one in any order; it may stop at a posting set that is empty; and it may treat a single
group, or a single token, apart from the others. `Evaluates` allows all these ways. They all end,
with the same ids: those that are in the posting sets of all tokens of some group that has tokens.
Such a group is needed, so a form with an empty group can hold of documents that it does not find.
-/

namespace TokenSearch.Index

/-- The ids that some way to go through a group ends with. -/
inductive Intersects (index : Index) (group : Group) : IdSet → Prop
  /-- Without a posting set there is nothing to go through. -/
  | nothing (hnil : group = []) : Intersects index group ∅
  /-- Stop at an empty posting set. -/
  | early {token : Token} (ht : token ∈ group) (hempty : index.postings token = ∅) :
      Intersects index group ∅
  /-- Visit the members of one posting set and keep those that are in all others. -/
  | filtered {first : IdSet} {others : List IdSet} {visited : List DocId}
      (hsets : (first :: others).Perm (group.map index.postings))
      (hvisited : ∀ d, d ∈ visited ↔ d ∈ first) :
      Intersects index group (.ofList (visited.filter fun d => others.all (·.contains d)))

/-- The ids that some way to evaluate groups ends with. -/
inductive Evaluates (index : Index) : List Group → IdSet → Prop
  /-- Take the members of the only posting set. -/
  | literal {token : Token} {visited : List DocId}
      (hvisited : ∀ d, d ∈ visited ↔ d ∈ index.postings token) :
      Evaluates index [[token]] (.ofList visited)
  /-- Go through the only group. -/
  | conjunction {group : Group} {ids : IdSet} (h : index.Intersects group ids) :
      Evaluates index [group] ids
  /-- Go through the groups one by one and unite what is found. -/
  | union {groups : List Group} {results : List IdSet}
      (h : List.Forall₂ index.Intersects groups results) :
      Evaluates index groups (results.foldl (· ∪ ·) ∅)

section Ways

variable {index : Index} {group : Group} {groups : List Group} {ids : IdSet} {d : DocId}

/-- Each way to go through a group finds the ids in the posting sets of all its tokens. -/
theorem Intersects.mem_iff (h : index.Intersects group ids) :
    d ∈ ids ↔ group ≠ [] ∧ ∀ token ∈ group, d ∈ index.postings token := by
  cases h with
  | nothing hnil => simp [hnil]
  | @early token ht hempty =>
    refine iff_of_false Std.ExtTreeSet.not_mem_empty ?_
    rintro ⟨-, hall⟩
    have hd := hall token ht
    rw [hempty] at hd
    exact Std.ExtTreeSet.not_mem_empty hd
  | @filtered first others visited hsets hvisited =>
    have hne : group ≠ [] := by
      rintro rfl
      exact List.cons_ne_nil _ _ hsets.eq_nil
    have hall : (∀ token ∈ group, d ∈ index.postings token) ↔
        ∀ ids ∈ first :: others, d ∈ ids := by
      simp only [hsets.mem_iff, List.forall_mem_map]
    rw [Std.ExtTreeSet.mem_ofList, List.contains_iff_mem, List.mem_filter, hvisited,
      List.all_eq_true, hall, List.forall_mem_cons, and_iff_right hne]
    rfl

/-- A group can be gone through, and all ways to do so end with the ids that match it. -/
theorem intersects_iff : index.Intersects group ids ↔ ids = index.matchGroup group := by
  have hsame {found : IdSet} (h : index.Intersects group found) :
      found = index.matchGroup group := by
    apply Std.ExtTreeSet.ext_mem
    intro d
    rw [h.mem_iff, mem_matchGroup]
  refine ⟨hsame, ?_⟩
  rintro rfl
  cases group with
  | nil => exact .nothing rfl
  | cons token group =>
    have h : index.Intersects (token :: group) _ :=
      .filtered (List.Perm.refl _) fun _ => Std.ExtTreeSet.mem_toList
    rw [← hsame h]
    exact h

/-- Each way to evaluate groups finds the ids that match one of them. -/
theorem Evaluates.mem_iff (h : index.Evaluates groups ids) :
    d ∈ ids ↔ ∃ group ∈ groups, d ∈ index.matchGroup group := by
  cases h with
  | literal hvisited => simp [mem_matchGroup, hvisited]
  | conjunction h => simp [intersects_iff.mp h]
  | @union _ results h =>
    have hresults : groups.map index.matchGroup = results := by
      rw [← List.forall₂_eq_eq_eq, List.forall₂_map_left_iff]
      exact h.imp fun group ids hids => (intersects_iff.mp hids).symm
    rw [← hresults, List.foldl_map, mem_foldl_matchGroup,
      or_iff_right Std.ExtTreeSet.not_mem_empty]

/-- A form can be evaluated, and all ways to do so end with the ids that match it. -/
theorem evaluates_iff {form : NormalForm} :
    index.Evaluates form.groups ids ↔ ids = index.evaluate form := by
  have hsame {found : IdSet} (h : index.Evaluates form.groups found) :
      found = index.evaluate form := by
    apply Std.ExtTreeSet.ext_mem
    intro d
    simp only [h.mem_iff, mem_evaluate, mem_matchGroup]
  refine ⟨hsame, ?_⟩
  rintro rfl
  have hgroups : List.Forall₂ index.Intersects form.groups (form.groups.map index.matchGroup) := by
    rw [List.forall₂_map_right_iff, List.forall₂_same]
    exact fun group _ => intersects_iff.mpr rfl
  rw [← hsame (.union hgroups)]
  exact .union hgroups

end Ways

/-- The normal form of an expression, whatever its groups look like, is answered with the ids that
are paired with all tokens of some group that has tokens, and so it is in whatever way it is
evaluated. -/
theorem evaluate_ofExpr (index : Index) (e : Expr) :
    (∀ d, d ∈ index.evaluate (.ofExpr e) ↔ ∃ group ∈ (NormalForm.ofExpr e).groups, group ≠ [] ∧
      ∀ token ∈ group, index.contains token d = true) ∧
    ∀ ids, index.Evaluates (NormalForm.ofExpr e).groups ids ↔ ids = index.evaluate (.ofExpr e) := by
  refine ⟨fun d => ?_, fun ids => evaluates_iff⟩
  simp only [mem_evaluate, contains_iff]

/-- A conjunction of nothing holds of every document and finds none. -/
example :
    let form := NormalForm.ofExpr (.node .and [])
    form.groups = [[]] ∧ form.holds (fun _ => false) = true ∧
      ((Index.empty.addDocument 1 ["a"]).evaluate form).toList = [] := by
  decide +kernel

end TokenSearch.Index
