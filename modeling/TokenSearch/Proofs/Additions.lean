import Mathlib.Data.Finset.Card
import Mathlib.Logic.Relation
import TokenSearch.Index

/-!
# What an index holds

An index is made by calls that add a single pair of a token and an id, or all pairs of a document.
Each call adds its pairs to those that were held before, so after any calls the index holds exactly
the pairs that were added at least once, and has an entry for exactly the tokens in them. This is
all there is to an index. So the same index is made by other calls exactly when they add the same
pairs, and that is when they are the first ones in other places, repeated, split or merged.
-/

namespace TokenSearch

/-- A call that adds to an index. -/
inductive Addition
  | pair (token : Token) (id : DocId)
  | document (id : DocId) (tokens : List Token)
  deriving DecidableEq, Repr

namespace Addition

/-- The pairs that a call adds. -/
def pairs : Addition → List (Token × DocId)
  | .pair token id => [(token, id)]
  | .document id tokens => tokens.map (·, id)

/-- The index after a call. -/
def applyTo (index : Index) : Addition → Index
  | .pair token id => index.add token id
  | .document id tokens => index.addDocument id tokens

/-- The pairs that calls add, in order and with repeats. -/
def allPairs (additions : List Addition) : List (Token × DocId) := additions.flatMap pairs

/-- One change to some calls. -/
inductive Regroups : List Addition → List Addition → Prop
  /-- The calls change places. -/
  | reorder {additions others : List Addition} (h : additions.Perm others) :
      Regroups additions others
  /-- One of the calls is repeated. -/
  | again {addition : Addition} {additions : List Addition} (h : addition ∈ additions) :
      Regroups additions (addition :: additions)
  /-- The tokens of a document are split up between two calls. -/
  | split (before after : List Addition) (id : DocId) (tokens more : List Token) :
      Regroups (before ++ .document id (tokens ++ more) :: after)
        (before ++ .document id tokens :: .document id more :: after)
  /-- A document of a single token is added as a pair. -/
  | single (before after : List Addition) (id : DocId) (token : Token) :
      Regroups (before ++ .document id [token] :: after) (before ++ .pair token id :: after)
  /-- A document without tokens is left out. -/
  | leaveOut (before after : List Addition) (id : DocId) :
      Regroups (before ++ .document id [] :: after) (before ++ after)

/-- Some changes, each made or undone, lead from one sequence of calls to the other. -/
abbrev Regrouped : List Addition → List Addition → Prop := Relation.EqvGen Regroups

/-- A change keeps the pairs. -/
theorem Regroups.mem_allPairs_iff {additions others : List Addition} (h : Regroups additions others)
    (pair : Token × DocId) : pair ∈ allPairs additions ↔ pair ∈ allPairs others := by
  cases h with
  | reorder h => exact (h.flatMap_right pairs).mem_iff
  | again h =>
    simp only [allPairs, List.flatMap_cons, List.mem_append, List.mem_flatMap]
    exact ⟨Or.inr, fun hpair => hpair.elim (fun hfirst => ⟨_, h, hfirst⟩) id⟩
  | split before after id tokens more => simp [allPairs, pairs]
  | single before after id token => simp [allPairs, pairs]
  | leaveOut before after id => simp [allPairs, pairs]

theorem Regrouped.mem_allPairs_iff {additions others : List Addition}
    (h : Regrouped additions others) (pair : Token × DocId) :
    pair ∈ allPairs additions ↔ pair ∈ allPairs others := by
  induction h with
  | rel additions others h => exact h.mem_allPairs_iff pair
  | refl additions => exact Iff.rfl
  | symm additions others _ ih => exact ih.symm
  | trans additions others more _ _ ihfirst ihsecond => exact ihfirst.trans ihsecond

theorem Regroups.regrouped {additions others : List Addition} (h : Regroups additions others) :
    Regrouped additions others := .rel _ _ h

theorem Regrouped.then {additions others more : List Addition} (h : Regrouped additions others)
    (hmore : Regrouped others more) : Regrouped additions more := .trans _ _ _ h hmore

/-- Behind a further call the same changes can be made. -/
theorem Regrouped.cons (first : Addition) {additions others : List Addition}
    (h : Regrouped additions others) : Regrouped (first :: additions) (first :: others) := by
  induction h with
  | rel additions others h =>
    cases h with
    | reorder h => exact (Regroups.reorder (h.cons first)).regrouped
    | @again addition additions h =>
      have hagain := Regroups.again (List.mem_cons_of_mem first h)
      exact hagain.regrouped.then (Regroups.reorder (.swap first addition additions)).regrouped
    | split before after id tokens more =>
      exact (Regroups.split (first :: before) after id tokens more).regrouped
    | single before after id token =>
      exact (Regroups.single (first :: before) after id token).regrouped
    | leaveOut before after id => exact (Regroups.leaveOut (first :: before) after id).regrouped
  | refl additions => exact .refl _
  | symm additions others _ ih => exact .symm _ _ ih
  | trans additions others more _ _ ihfirst ihsecond => exact ihfirst.then ihsecond

/-- A document is split up into its pairs. -/
theorem regrouped_document (id : DocId) (tokens : List Token) (after : List Addition) :
    Regrouped (.document id tokens :: after) (tokens.map (Addition.pair · id) ++ after) := by
  induction tokens with
  | nil => exact (Regroups.leaveOut [] after id).regrouped
  | cons token tokens ih =>
    have hsplit := (Regroups.split [] after id [token] tokens).regrouped
    have hsingle := (Regroups.single [] (.document id tokens :: after) id token).regrouped
    exact (hsplit.then hsingle).then (ih.cons _)

/-- Calls are split up into their pairs. -/
theorem regrouped_pairs (additions : List Addition) :
    Regrouped additions ((allPairs additions).map fun pair => .pair pair.1 pair.2) := by
  induction additions with
  | nil => exact .refl _
  | cons addition additions ih =>
    cases addition with
    | pair token id => exact ih.cons _
    | document id tokens =>
      have hpairs : (allPairs (.document id tokens :: additions)).map
          (fun pair => Addition.pair pair.1 pair.2) =
            tokens.map (Addition.pair · id) ++
              (allPairs additions).map fun pair => .pair pair.1 pair.2 := by
        simp [allPairs, pairs, Function.comp_def]
      rw [hpairs]
      exact (ih.cons _).then (regrouped_document id tokens _)

/-- Calls that are among others can be repeated in front of them. -/
theorem regrouped_append {additions others : List Addition} (h : additions ⊆ others) :
    Regrouped others (additions ++ others) := by
  induction additions with
  | nil => exact .refl _
  | cons addition additions ih =>
    obtain ⟨haddition, hadditions⟩ := List.cons_subset.mp h
    have hagain := Regroups.again (List.mem_append_right additions haddition)
    exact (ih hadditions).then hagain.regrouped

/-- Calls with the same members only differ in order and repeats. -/
theorem regrouped_of_subset {additions others : List Addition} (h : additions ⊆ others)
    (hback : others ⊆ additions) : Regrouped additions others := by
  have hperm : Regrouped (others ++ additions) (additions ++ others) :=
    (Regroups.reorder List.perm_append_comm).regrouped
  exact ((regrouped_append hback).then hperm).then (.symm _ _ (regrouped_append h))

/-- Calls can be regrouped to any others that add the same pairs. -/
theorem regrouped_iff {additions others : List Addition} :
    Regrouped additions others ↔
      ∀ pair, pair ∈ allPairs additions ↔ pair ∈ allPairs others := by
  refine ⟨fun h pair => h.mem_allPairs_iff pair, fun h => ?_⟩
  have hpairs := regrouped_of_subset
    (List.map_subset (fun pair => Addition.pair pair.1 pair.2) fun pair => (h pair).mp)
    (List.map_subset _ fun pair => (h pair).mpr)
  exact ((regrouped_pairs additions).then hpairs).then (.symm _ _ (regrouped_pairs others))

end Addition

namespace Index

open Addition (allPairs Regrouped)

/-- The index that calls make from the empty one. -/
def ofAdditions (additions : List Addition) : Index := additions.foldl Addition.applyTo empty

/-- The pairs that were added to an index decide what it holds. -/
structure HasAdded (index : Index) (pairs : List (Token × DocId)) : Prop where
  mem_postings (token : Token) (d : DocId) : d ∈ index.postings token ↔ (token, d) ∈ pairs
  mem_entries (token : Token) : token ∈ index.entries ↔ ∃ d, (token, d) ∈ pairs

theorem hasAdded_empty : empty.HasAdded [] where
  mem_postings := by simp
  mem_entries := by simp [empty]

/-- A call adds its pairs. -/
theorem HasAdded.applyTo {index : Index} {pairs : List (Token × DocId)} (h : index.HasAdded pairs)
    (addition : Addition) : (addition.applyTo index).HasAdded (pairs ++ addition.pairs) := by
  cases addition with
  | pair token id =>
    constructor
    · intro t d
      rw [Addition.applyTo, mem_postings_add, h.mem_postings, List.mem_append, or_comm]
      simp [Addition.pairs]
    · intro t
      rw [Addition.applyTo, mem_entries_add, h.mem_entries, or_comm]
      simp [Addition.pairs, exists_or]
  | document id tokens =>
    constructor
    · intro t d
      rw [Addition.applyTo, mem_postings_addDocument, h.mem_postings, List.mem_append, or_comm]
      simp [Addition.pairs, @eq_comm _ d id]
    · intro t
      rw [Addition.applyTo, mem_entries_addDocument, h.mem_entries, or_comm]
      simp [Addition.pairs, exists_or]

/-- Calls add their pairs to those that were added before. -/
theorem HasAdded.foldl {index : Index} {pairs : List (Token × DocId)} (h : index.HasAdded pairs)
    (additions : List Addition) :
    (additions.foldl Addition.applyTo index).HasAdded (pairs ++ allPairs additions) := by
  induction additions generalizing index pairs with
  | nil => simpa [allPairs] using h
  | cons addition additions ih => simpa [allPairs] using ih (h.applyTo addition)

theorem hasAdded_ofAdditions (additions : List Addition) :
    (ofAdditions additions).HasAdded (allPairs additions) :=
  hasAdded_empty.foldl additions

/-- The entry of a token is its posting set. -/
theorem getElem?_entries (index : Index) (token : Token) :
    index.entries[token]? =
      if token ∈ index.entries then some (index.postings token) else none := by
  split
  · rename_i h
    rw [postings, Std.ExtTreeMap.getElem?_eq_some_getElem h, Option.getD_some]
  · rename_i h
    exact Std.ExtTreeMap.getElem?_eq_none h

/-- The pairs that were added are all there is to an index. -/
theorem HasAdded.eq_iff {index other : Index} {pairs others : List (Token × DocId)}
    (h : index.HasAdded pairs) (hother : other.HasAdded others) :
    index = other ↔ ∀ pair, pair ∈ pairs ↔ pair ∈ others := by
  constructor
  · rintro rfl ⟨token, d⟩
    rw [← h.mem_postings, hother.mem_postings]
  · intro hpairs
    have hpostings (token : Token) : index.postings token = other.postings token := by
      ext d
      rw [h.mem_postings, hother.mem_postings, hpairs]
    have hentries : index.entries = other.entries := by
      refine Std.ExtTreeMap.ext_getElem? fun token => ?_
      have hmem : token ∈ index.entries ↔ token ∈ other.entries := by
        simp only [h.mem_entries, hother.mem_entries, hpairs]
      rw [getElem?_entries, getElem?_entries, hpostings, if_congr hmem rfl rfl]
    cases index
    cases other
    exact congrArg Index.mk hentries

/-- What can be asked of an index and what it then shows of the pairs that were added. -/
structure Shows (index : Index) (pairs : List (Token × DocId)) : Prop where
  contains (token : Token) (d : DocId) : index.contains token d = true ↔ (token, d) ∈ pairs
  postings (token : Token) (d : DocId) : d ∈ index.postings token ↔ (token, d) ∈ pairs
  unknown (token : Token) (h : token ∉ pairs.map Prod.fst) : index.postings token = ∅
  /-- No posting set that is kept is empty. -/
  nonempty (token : Token) (ids : IdSet) (h : index.entries[token]? = some ids) : ids ≠ ∅
  tokenCount : index.tokenCount = (pairs.map Prod.fst).toFinset.card
  isEmpty : index.isEmpty = true ↔ pairs = []

theorem HasAdded.shows {index : Index} {pairs : List (Token × DocId)} (h : index.HasAdded pairs) :
    index.Shows pairs where
  contains token d := by rw [contains_iff, h.mem_postings]
  postings := h.mem_postings
  unknown token hunknown := by
    refine Std.ExtTreeSet.eq_empty_iff_forall_not_mem.mpr fun d hd => hunknown ?_
    exact List.mem_map_of_mem ((h.mem_postings token d).mp hd)
  nonempty token ids hids := by
    rw [getElem?_entries] at hids
    split at hids
    · rename_i hentry
      obtain ⟨d, hpair⟩ := (h.mem_entries token).mp hentry
      obtain rfl := Option.some.inj hids
      rintro hempty
      have hd := (h.mem_postings token d).mpr hpair
      rw [hempty] at hd
      exact Std.ExtTreeSet.not_mem_empty hd
    · cases hids
  tokenCount := by
    have hkeys : index.entries.keys.toFinset = (pairs.map Prod.fst).toFinset := by
      ext token
      simp [h.mem_entries]
    rw [← hkeys, List.toFinset_card_of_nodup Std.ExtTreeMap.nodup_keys,
      Std.ExtTreeMap.length_keys]
    rfl
  isEmpty := by
    rw [Index.isEmpty, Std.ExtTreeMap.isEmpty_iff, Std.ExtTreeMap.eq_empty_iff_forall_not_mem]
    simp only [h.mem_entries, List.eq_nil_iff_forall_not_mem, Prod.forall, not_exists]

/-- After any calls on a new index, what it shows is decided by the pairs that were added at least
once. Other calls make the same index exactly when they are these ones in other places, repeated,
split or merged. -/
theorem shows_ofAdditions (additions : List Addition) :
    (ofAdditions additions).Shows (allPairs additions) ∧
      ∀ others, ofAdditions additions = ofAdditions others ↔ Regrouped additions others := by
  have h := hasAdded_ofAdditions additions
  refine ⟨h.shows, fun others => ?_⟩
  rw [h.eq_iff (hasAdded_ofAdditions others), Addition.regrouped_iff]

/-- A document with a repeat, and its pairs in the reverse order behind a document of nothing. -/
example :
    ofAdditions [.document 7 ["cat", "dog", "cat"]] =
      ofAdditions [.document 3 [], .pair "dog" 7, .pair "cat" 7] := by
  rw [(hasAdded_ofAdditions _).eq_iff (hasAdded_ofAdditions _)]
  simp [allPairs, Addition.pairs, or_comm]

end Index

end TokenSearch
