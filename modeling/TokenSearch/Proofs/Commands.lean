import Mathlib.Data.List.Basic
import TokenSearch.Command

/-!
# Accepted commands

The checks of a document change nothing in it: what is accepted are the words as given. So a line
that is read as an indexing command spells its document, an id and then each token in order.
-/

namespace TokenSearch

/-- Checking tokens accepts one or more words that are all tokens, and returns them as given. -/
theorem checkTokens_eq_ok_iff {raw : List String} {tokens : List Token} :
    checkTokens raw = .ok tokens ↔
      tokens = raw ∧ raw ≠ [] ∧ ∀ word ∈ raw, isToken word = true := by
  unfold checkTokens
  split
  · rename_i word hword
    have hbad : isToken word = false := by simpa using List.find?_some hword
    constructor
    · intro h
      cases h
    · rintro ⟨-, -, hgood⟩
      rw [hgood word (List.mem_of_find?_eq_some hword)] at hbad
      cases hbad
  · rename_i hnone
    have hgood : ∀ word ∈ raw, isToken word = true := by simpa using hnone
    cases raw with
    | nil => simp
    | cons word words =>
      constructor
      · intro h
        cases h
        exact ⟨rfl, List.cons_ne_nil word words, hgood⟩
      · rintro ⟨rfl, -, -⟩
        rfl

/-- The first word that is no token is reported. -/
theorem checkTokens_of_first {before after : List String} {word : String}
    (hbefore : ∀ earlier ∈ before, isToken earlier = true) (hword : isToken word = false) :
    checkTokens (before ++ word :: after) = .error (.notAlphanumeric word) := by
  have hnone : before.find? (!isToken ·) = none := by simpa using hbefore
  have hfirst : (before ++ word :: after).find? (!isToken ·) = some word := by
    rw [List.find?_append, hnone, Option.none_or, List.find?_cons_of_pos (by simp [hword])]
  rw [checkTokens, hfirst]

namespace Command

/-- Words describe a document when they are the text of its id and then its tokens, in order. -/
theorem documentOf_eq_ok_iff {words : List String} {document : Document} :
    documentOf words = .ok document ↔
      ∃ word, words = word :: document.tokens ∧ DocId.ofText? word = some document.id ∧
        document.tokens ≠ [] ∧ ∀ token ∈ document.tokens, isToken token = true := by
  obtain ⟨id, tokens⟩ := document
  cases words with
  | nil => simp [documentOf]
  | cons word words =>
    have hbind : documentOf (word :: words) = .ok ⟨id, tokens⟩ ↔
        DocId.ofText? word = some id ∧ checkTokens words = .ok tokens := by
      simp only [documentOf, checkId]
      cases DocId.ofText? word with
      | none => simp [bind, Except.bind]
      | some id =>
        cases checkTokens words <;> simp [bind, Except.bind, pure, Except.pure]
    rw [hbind, checkTokens_eq_ok_iff]
    constructor
    · rintro ⟨hid, rfl, hne, hgood⟩
      exact ⟨word, rfl, hid, hne, hgood⟩
    · rintro ⟨_, hwords, hid, hne, hgood⟩
      cases hwords
      exact ⟨hid, rfl, hne, hgood⟩

/-- A line is an indexing command when its words behind the keyword describe a document. -/
theorem parse_eq_index_iff {line : String} {document : Document} :
    parse line = .ok (.index document) ↔
      ∃ arguments, dropLineEnd line.toList = "index ".toList ++ arguments ∧
        documentOf ((Text.words arguments).map String.ofList) = .ok document := by
  simp only [parse]
  split
  · rename_i arguments harguments
    rw [List.isPrefixOf?_eq_some_iff_append_eq] at harguments
    have hrest : ∀ rest, dropLineEnd line.toList = "index ".toList ++ rest ↔ rest = arguments := by
      intro rest
      rw [← harguments, List.append_right_inj, eq_comm]
    simp only [hrest, exists_eq_left]
    cases documentOf ((Text.words arguments).map String.ofList) <;> simp
  · rename_i hnone
    constructor
    · intro h
      split at h <;> cases h
    · rintro ⟨arguments, hline, -⟩
      rw [hline, List.isPrefixOf?_eq_some_iff_append_eq.2 rfl] at hnone
      cases hnone

end Command

end TokenSearch
