import TokenSearch.DocId
import TokenSearch.Token

/-!
# Inverted index

An index maps each token to the set of ids of the documents that contain it. An id is in the
posting set of a token exactly when that pair was added at least once, and a token has an entry
only once some document contains it.
-/

namespace TokenSearch

/-- The posting sets of all tokens that occur in some document. -/
structure Index where
  /-- The ids of the documents that contain a token. -/
  entries : Std.ExtTreeMap Token IdSet := ∅

namespace Index

/-- The index of no documents. -/
def empty : Index := {}

/-- The ids of the documents that contain a token; no ids for a token that was never added. -/
def postings (index : Index) (token : Token) : IdSet := index.entries[token]?.getD ∅

/-- Record that a document contains a token. Recording a pair again changes nothing. -/
def add (index : Index) (token : Token) (id : DocId) : Index :=
  ⟨index.entries.insert token ((index.postings token).insert id)⟩

/-- Record every token of a document. -/
def addDocument (index : Index) (id : DocId) (tokens : List Token) : Index :=
  tokens.foldl (fun index token => index.add token id) index

/-- Whether a document contains a token. -/
def contains (index : Index) (token : Token) (id : DocId) : Bool :=
  (index.postings token).contains id

@[simp] theorem postings_empty (token : Token) : empty.postings token = ∅ := by
  simp [postings, empty]

/-- Recording a pair adds just that pair. -/
theorem mem_postings_add {index : Index} {token t : Token} {id d : DocId} :
    d ∈ (index.add token id).postings t ↔ (t = token ∧ d = id) ∨ d ∈ index.postings t := by
  unfold postings add
  rw [Std.ExtTreeMap.getElem?_insert]
  by_cases ht : t = token
  · subst ht
    simp [postings, Std.ExtTreeSet.mem_insert, @eq_comm _ d id]
  · have hne : compare token t ≠ .eq := fun h => ht (Std.LawfulEqOrd.eq_of_compare h).symm
    simp [hne, ht]

/-- Recording a document adds its pairs and no others. -/
theorem mem_postings_addDocument {index : Index} {tokens : List Token} {t : Token} {id d : DocId} :
    d ∈ (index.addDocument id tokens).postings t ↔
      (t ∈ tokens ∧ d = id) ∨ d ∈ index.postings t := by
  induction tokens generalizing index with
  | nil => simp [addDocument]
  | cons token tokens ih =>
    have h := @ih (index.add token id)
    simp only [addDocument, List.foldl_cons] at h ⊢
    rw [h, mem_postings_add, List.mem_cons, or_and_right, or_assoc, or_left_comm]

/-- Recording a pair makes an entry for its token and no others. -/
theorem mem_entries_add {index : Index} {token t : Token} {id : DocId} :
    t ∈ (index.add token id).entries ↔ t = token ∨ t ∈ index.entries := by
  rw [add, Std.ExtTreeMap.mem_insert, Std.LawfulEqOrd.compare_eq_iff_eq, eq_comm]

/-- Recording a document makes entries for its tokens and no others. -/
theorem mem_entries_addDocument {index : Index} {tokens : List Token} {t : Token} {id : DocId} :
    t ∈ (index.addDocument id tokens).entries ↔ t ∈ tokens ∨ t ∈ index.entries := by
  induction tokens generalizing index with
  | nil => simp [addDocument]
  | cons token tokens ih =>
    have h := @ih (index.add token id)
    simp only [addDocument, List.foldl_cons] at h ⊢
    rw [h, mem_entries_add, List.mem_cons, or_left_comm, or_assoc]

theorem contains_iff {index : Index} {token : Token} {id : DocId} :
    index.contains token id = true ↔ id ∈ index.postings token :=
  Std.ExtTreeSet.contains_iff_mem

/-- The number of distinct tokens that occur in some document. -/
def tokenCount (index : Index) : Nat := index.entries.size

/-- Whether no document contains any token. -/
def isEmpty (index : Index) : Bool := index.entries.isEmpty

end Index

end TokenSearch
