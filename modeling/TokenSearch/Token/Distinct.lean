import TokenSearch.Token

/-!
# Distinct tokens

A list of distinct tokens keeps each token at the place of its first occurrence.
-/

namespace TokenSearch

/-- Put a token behind the others unless it is already among them. -/
def appendNew (seen : List Token) (token : Token) : List Token :=
  if seen.contains token then seen else seen ++ [token]

/-- Put the new ones of some tokens behind the others, each once. -/
def mergeDistinct (seen tokens : List Token) : List Token := tokens.foldl appendNew seen

/-- The tokens of a list in the order of their first occurrence. -/
def distinct (tokens : List Token) : List Token := mergeDistinct [] tokens

theorem mem_appendNew {seen : List Token} {token t : Token} :
    t ∈ appendNew seen token ↔ t ∈ seen ∨ t = token := by
  unfold appendNew
  split
  · rename_i h
    have h : token ∈ seen := by simpa using h
    exact ⟨Or.inl, fun ht => ht.elim id fun e => e ▸ h⟩
  · simp

/-- Merging keeps all tokens of both lists and adds none. -/
theorem mem_mergeDistinct {seen tokens : List Token} {t : Token} :
    t ∈ mergeDistinct seen tokens ↔ t ∈ seen ∨ t ∈ tokens := by
  induction tokens generalizing seen with
  | nil => simp [mergeDistinct]
  | cons token tokens ih =>
    have h := @ih (appendNew seen token)
    simp only [mergeDistinct, List.foldl_cons] at h ⊢
    rw [h, mem_appendNew, List.mem_cons, or_assoc]

theorem mem_distinct {tokens : List Token} {t : Token} : t ∈ distinct tokens ↔ t ∈ tokens := by
  simp [distinct, mem_mergeDistinct]

theorem nodup_appendNew {seen : List Token} (h : seen.Nodup) (token : Token) :
    (appendNew seen token).Nodup := by
  unfold appendNew
  split
  · exact h
  · rename_i hn
    have hn : token ∉ seen := by simpa using hn
    refine List.nodup_append.2 ⟨h, by simp, ?_⟩
    rintro a ha b hb rfl
    exact hn (by simpa using (List.mem_singleton.1 hb) ▸ ha)

/-- Merging into a list without repeats makes no repeats. -/
theorem nodup_mergeDistinct {seen : List Token} (h : seen.Nodup) (tokens : List Token) :
    (mergeDistinct seen tokens).Nodup := by
  induction tokens generalizing seen with
  | nil => exact h
  | cons token tokens ih => exact ih (nodup_appendNew h token)

theorem nodup_distinct (tokens : List Token) : (distinct tokens).Nodup :=
  nodup_mergeDistinct List.nodup_nil tokens

/-- A token put behind what is merged is put behind the result. -/
theorem mergeDistinct_appendNew (seen tokens : List Token) (token : Token) :
    mergeDistinct seen (appendNew tokens token) = appendNew (mergeDistinct seen tokens) token := by
  by_cases h : token ∈ tokens
  · have hmerged : token ∈ mergeDistinct seen tokens := mem_mergeDistinct.mpr (Or.inr h)
    rw [appendNew, if_pos (List.contains_iff_mem.mpr h), appendNew,
      if_pos (List.contains_iff_mem.mpr hmerged)]
  · have hnew : appendNew tokens token = tokens ++ [token] :=
      if_neg fun hcontains => h (List.contains_iff_mem.mp hcontains)
    rw [hnew, mergeDistinct, List.foldl_append]
    rfl

/-- Merging is associative. -/
theorem mergeDistinct_assoc (first second third : List Token) :
    mergeDistinct (mergeDistinct first second) third =
      mergeDistinct first (mergeDistinct second third) := by
  induction third generalizing second with
  | nil => rfl
  | cons token third ih =>
    have h := ih (appendNew second token)
    rw [mergeDistinct_appendNew] at h
    exact h

/-- Tokens without repeats, none of which was seen, are just put behind the others. -/
theorem mergeDistinct_eq_append {seen tokens : List Token} (h : (seen ++ tokens).Nodup) :
    mergeDistinct seen tokens = seen ++ tokens := by
  induction tokens generalizing seen with
  | nil => rw [List.append_nil]; rfl
  | cons token tokens ih =>
    have hnew : token ∉ seen := by
      intro hseen
      exact (List.nodup_append.mp h).2.2 token hseen token List.mem_cons_self rfl
    have hput : appendNew seen token = seen ++ [token] :=
      if_neg fun hcontains => hnew (List.contains_iff_mem.mp hcontains)
    rw [List.append_cons] at h ⊢
    rw [← ih h, ← hput]
    rfl

/-- Tokens without repeats are all distinct. -/
theorem distinct_eq_self {tokens : List Token} (h : tokens.Nodup) : distinct tokens = tokens :=
  mergeDistinct_eq_append h

/-- What is put behind the seen tokens are the others, each once. -/
theorem mergeDistinct_eq_append_eraseDups (seen tokens : List Token) :
    mergeDistinct seen tokens = seen ++ (tokens.filter (· ∉ seen)).eraseDups := by
  induction tokens generalizing seen with
  | nil => exact (List.append_nil seen).symm
  | cons token tokens ih =>
    rw [mergeDistinct, List.foldl_cons, ← mergeDistinct, ih, appendNew]
    by_cases h : token ∈ seen
    · rw [if_pos (List.contains_iff_mem.mpr h), List.filter_cons_of_neg (by simpa using h)]
    · have hrest : tokens.filter (· ∉ seen ++ [token]) =
          (tokens.filter (· ∉ seen)).filter (!· == token) := by
        rw [List.filter_filter]
        refine List.filter_congr ?_
        intro t _
        rw [Bool.eq_iff_iff]
        simp [and_comm]
      rw [if_neg fun hcontains => h (List.contains_iff_mem.mp hcontains), hrest,
        List.filter_cons_of_pos (by simpa using h), List.eraseDups_cons, List.append_assoc,
        List.singleton_append]

/-- The distinct tokens are those that are left when repeats are erased. -/
theorem distinct_eq_eraseDups (tokens : List Token) : distinct tokens = tokens.eraseDups := by
  have hall : tokens.filter (· ∉ ([] : List Token)) = tokens :=
    List.filter_eq_self.mpr (by simp)
  rw [distinct, mergeDistinct_eq_append_eraseDups, List.nil_append, hall]

/-- Merging takes no notice of repeats in what is merged. -/
theorem mergeDistinct_distinct (seen tokens : List Token) :
    mergeDistinct seen (distinct tokens) = mergeDistinct seen tokens := by
  rw [distinct, ← mergeDistinct_assoc]
  rfl

/-- The distinct tokens of two lists in a row are merged from those of each. -/
theorem distinct_append (first second : List Token) :
    distinct (first ++ second) = mergeDistinct (distinct first) (distinct second) := by
  rw [mergeDistinct_distinct, distinct, mergeDistinct, List.foldl_append]
  rfl

end TokenSearch
