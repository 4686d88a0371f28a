import TokenSearch.NormalForm
import TokenSearch.Proofs.Expression
import TokenSearch.Token.Distinct

/-!
# Normal forms mean what their expressions mean

Distribution is followed group by group: a group of a product holds exactly when both of its
factors hold, so the groups of an expression hold together when the expression does. Dropping
a repeated group changes nothing, since groups with one key have the same tokens.
-/

namespace TokenSearch.NormalForm

/-- A form holds when all tokens of one of its groups do. -/
theorem holds_iff {truth : Token → Bool} {form : NormalForm} :
    form.holds truth = true ↔ ∃ group ∈ form.groups, ∀ token ∈ group, truth token = true := by
  simp only [holds, List.any_eq_true, List.all_eq_true]

/-- Two groups have the same key exactly when they have the same tokens. -/
theorem groupKey_eq_iff {first second : Group} :
    groupKey first = groupKey second ↔ ∀ token, token ∈ first ↔ token ∈ second := by
  rw [groupKey, groupKey, Std.ExtTreeSet.toList_inj]
  constructor
  · intro h token
    have hmem : token ∈ Std.ExtTreeSet.ofList first ↔ token ∈ Std.ExtTreeSet.ofList second := by
      rw [h]
    simpa only [Std.ExtTreeSet.mem_ofList, List.contains_iff_mem] using hmem
  · intro h
    apply Std.ExtTreeSet.ext_mem
    intro token
    simpa only [Std.ExtTreeSet.mem_ofList, List.contains_iff_mem] using h token

/-- Dropping repeats keeps the order of the groups and adds none. -/
theorem dropRepeats_sublist (seen : Std.ExtTreeSet (List Token)) (groups : List Group) :
    (dropRepeats seen groups).Sublist groups := by
  induction groups generalizing seen with
  | nil => exact List.Sublist.slnil
  | cons group groups ih =>
    rw [dropRepeats]
    split
    · exact (ih seen).cons group
    · exact (ih _).cons_cons group

/-- A group whose key is not among the seen ones is kept, or another with its key is. -/
theorem exists_mem_dropRepeats {seen : Std.ExtTreeSet (List Token)} {groups : List Group}
    {group : Group} (h : group ∈ groups) (hs : groupKey group ∉ seen) :
    ∃ kept ∈ dropRepeats seen groups, groupKey kept = groupKey group := by
  induction groups generalizing seen with
  | nil => cases h
  | cons first groups ih =>
    rw [dropRepeats]
    by_cases hfirst : groupKey first = groupKey group
    · rw [if_neg (hfirst ▸ hs)]
      exact ⟨first, List.mem_cons_self, hfirst⟩
    · have htail : group ∈ groups := by
        refine (List.mem_cons.mp h).resolve_left ?_
        rintro rfl
        exact hfirst rfl
      split
      · exact ih htail hs
      · have hseen : groupKey group ∉ seen.insert (groupKey first) := by
          rw [Std.ExtTreeSet.mem_insert, Std.LawfulEqOrd.compare_eq_iff_eq, not_or]
          exact ⟨hfirst, hs⟩
        obtain ⟨kept, hkept, hkey⟩ := ih htail hseen
        exact ⟨kept, List.mem_cons_of_mem _ hkept, hkey⟩

/-- Dropping repeats keeps the value. -/
theorem holds_dropRepeats (truth : Token → Bool) (groups : List Group) :
    holds truth ⟨dropRepeats ∅ groups⟩ = holds truth ⟨groups⟩ := by
  rw [Bool.eq_iff_iff, holds_iff, holds_iff]
  constructor
  · rintro ⟨group, hg, htrue⟩
    exact ⟨group, (dropRepeats_sublist ∅ groups).subset hg, htrue⟩
  · rintro ⟨group, hg, htrue⟩
    obtain ⟨kept, hkept, hkey⟩ := exists_mem_dropRepeats hg Std.ExtTreeSet.not_mem_empty
    have hsame := groupKey_eq_iff.mp hkey
    refine ⟨kept, hkept, ?_⟩
    intro token ht
    exact htrue token ((hsame token).mp ht)

/-- A product consists of the merged pairs of a left and a right group. -/
theorem mem_distribute {lefts rights : List Group} {group : Group} :
    group ∈ distribute lefts rights ↔
      ∃ left ∈ lefts, ∃ right ∈ rights, mergeDistinct left right = group := by
  simp only [distribute, List.mem_flatMap, List.mem_map]

/-- A product holds when both factors do. -/
theorem holds_distribute (truth : Token → Bool) (lefts rights : List Group) :
    holds truth ⟨distribute lefts rights⟩ = (holds truth ⟨lefts⟩ && holds truth ⟨rights⟩) := by
  rw [Bool.eq_iff_iff, Bool.and_eq_true, holds_iff, holds_iff, holds_iff]
  constructor
  · rintro ⟨group, hg, htrue⟩
    obtain ⟨left, hl, right, hr, rfl⟩ := mem_distribute.mp hg
    refine ⟨⟨left, hl, ?_⟩, ⟨right, hr, ?_⟩⟩
    · intro token ht
      exact htrue token (mem_mergeDistinct.mpr (Or.inl ht))
    · intro token ht
      exact htrue token (mem_mergeDistinct.mpr (Or.inr ht))
  · rintro ⟨⟨left, hl, hltrue⟩, ⟨right, hr, hrtrue⟩⟩
    have hmerged := mem_distribute.mpr ⟨left, hl, right, hr, rfl⟩
    refine ⟨mergeDistinct left right, hmerged, ?_⟩
    intro token ht
    rcases mem_mergeDistinct.mp ht with ht | ht
    · exact hltrue token ht
    · exact hrtrue token ht

/-- Groups in a row hold when those of one part do. -/
theorem holds_append (truth : Token → Bool) (groups others : List Group) :
    holds truth ⟨groups ++ others⟩ = (holds truth ⟨groups⟩ || holds truth ⟨others⟩) := by
  simp only [holds, List.any_append]

private theorem holds_expandAny {truth : Token → Bool} {es : List Expr}
    (h : ∀ e ∈ es, holds truth ⟨expand e⟩ = e.holds truth) :
    holds truth ⟨expandAny es⟩ = es.any (Expr.holds truth) := by
  induction es with
  | nil => rfl
  | cons e es ih =>
    obtain ⟨he, hes⟩ := List.forall_mem_cons.mp h
    rw [expandAny, holds_append, he, ih hes, List.any_cons]

private theorem holds_expandAll {truth : Token → Bool} {es : List Expr}
    (h : ∀ e ∈ es, holds truth ⟨expand e⟩ = e.holds truth) (lefts : List Group) :
    holds truth ⟨expandAll lefts es⟩ = (holds truth ⟨lefts⟩ && es.all (Expr.holds truth)) := by
  induction es generalizing lefts with
  | nil => rw [expandAll, List.all_nil, Bool.and_true]
  | cons e es ih =>
    obtain ⟨he, hes⟩ := List.forall_mem_cons.mp h
    rw [expandAll, ih hes, holds_distribute, he, List.all_cons, Bool.and_assoc]

/-- The groups of an expression hold when the expression does. -/
theorem holds_expand (truth : Token → Bool) (e : Expr) :
    holds truth ⟨expand e⟩ = e.holds truth := by
  induction e using Expr.operandInduction with
  | literal token => simp [holds, expand, Expr.holds]
  | node op operands ih =>
    cases op with
    | and =>
      rw [expand, holds_expandAll ih, Expr.holds_and]
      simp [holds]
    | or => rw [expand, holds_expandAny ih, Expr.holds_or]

/-- Normalizing keeps the value of every expression under every assignment. -/
theorem holds_ofExpr (truth : Token → Bool) (e : Expr) :
    (ofExpr e).holds truth = e.holds truth := by
  rw [ofExpr, holds_dropRepeats, holds_expand]

private theorem ne_nil_of_mem_expandAll {es : List Expr}
    (h : ∀ e ∈ es, ∀ group ∈ expand e, group ≠ []) {lefts : List Group}
    (hl : es ≠ [] ∨ ∀ left ∈ lefts, left ≠ []) {group : Group}
    (hg : group ∈ expandAll lefts es) : group ≠ [] := by
  induction es generalizing lefts with
  | nil => exact hl.resolve_left (fun hne => hne rfl) group hg
  | cons e es ih =>
    obtain ⟨he, hes⟩ := List.forall_mem_cons.mp h
    have hproduct : ∀ merged ∈ distribute lefts (expand e), merged ≠ [] := by
      intro merged hm
      obtain ⟨left, _, right, hr, rfl⟩ := mem_distribute.mp hm
      obtain ⟨token, ht⟩ := List.exists_mem_of_ne_nil right (he right hr)
      exact List.ne_nil_of_mem (mem_mergeDistinct.mpr (Or.inr ht))
    exact ih hes (Or.inr hproduct) hg

/-- When no node is without operands, every group has a token. -/
theorem ne_nil_of_mem_expand {e : Expr} (h : e.Populated) :
    ∀ group ∈ expand e, group ≠ [] := by
  induction h with
  | literal token => simp [expand]
  | @node op operands nonempty _ ih =>
    cases op with
    | and => exact fun group hg => ne_nil_of_mem_expandAll ih (Or.inl nonempty) hg
    | or =>
      intro group hg
      rw [expand, expandAny_eq_flatMap] at hg
      obtain ⟨e, he, hg⟩ := List.mem_flatMap.mp hg
      exact ih e he group hg

end TokenSearch.NormalForm
