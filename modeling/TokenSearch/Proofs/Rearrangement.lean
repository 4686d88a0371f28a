import Mathlib.Data.Finset.Sups
import Mathlib.Data.List.Perm.Basic
import TokenSearch.Proofs.Distribution

/-!
# Rearranged expressions

The normal form follows the order in which an expression is written: its groups come in the order
of the operands, and so do the tokens of a group. Nothing else about the order shows in it. When
operands change places anywhere in an expression, or a disjunction below a conjunction is multiplied
out, the groups have the same sets of tokens as before. The sets are followed up the tree: a
disjunction unites the sets of its operands, a conjunction joins each set of one operand with each
of the other, both in any order, and joining distributes over uniting.
-/

namespace TokenSearch

namespace Expr

/-- One rearrangement somewhere in an expression. -/
inductive Rearranges : Expr → Expr → Prop
  /-- The operands of a node change places. -/
  | permute (op : Connective) {operands others : List Expr} (h : operands.Perm others) :
      Rearranges (.node op operands) (.node op others)
  /-- A disjunction among the operands of a conjunction is multiplied out: `A & (B | C)` becomes
  `A & B | A & C`. -/
  | multiplyOut (before alternatives after : List Expr) :
      Rearranges (.node .and (before ++ .node .or alternatives :: after))
        (.node .or (alternatives.map fun e => .node .and (before ++ e :: after)))
  /-- One operand of a node is rearranged. -/
  | operand (op : Connective) (before after : List Expr) {e f : Expr} (h : Rearranges e f) :
      Rearranges (.node op (before ++ e :: after)) (.node op (before ++ f :: after))

example (a b c : Expr) :
    Rearranges (.node .and [a, .node .or [b, c]])
      (.node .or [.node .and [a, b], .node .and [a, c]]) :=
  .multiplyOut [a] [b, c] []

/-- Some rearrangements, each made or undone, lead from one expression to the other. -/
abbrev Rearranged : Expr → Expr → Prop := Relation.EqvGen Rearranges

end Expr

namespace NormalForm

open TokenSearch.Expr (Rearranges Rearranged)
open scoped FinsetFamily

/-- The sets of tokens that some groups have. -/
def tokenSets (groups : List Group) : Finset (Finset Token) :=
  (groups.map List.toFinset).toFinset

theorem mem_tokenSets {groups : List Group} {tokens : Finset Token} :
    tokens ∈ tokenSets groups ↔ ∃ group ∈ groups, group.toFinset = tokens := by
  rw [tokenSets, List.mem_toFinset, List.mem_map]

/-- Groups with the same tokens are those with the same set of tokens. -/
theorem toFinset_eq_iff_groupKey_eq {first second : Group} :
    first.toFinset = second.toFinset ↔ groupKey first = groupKey second := by
  simp only [groupKey_eq_iff, Finset.ext_iff, List.mem_toFinset]

/-- A merged group has the tokens of both groups. -/
theorem toFinset_mergeDistinct (left right : Group) :
    (mergeDistinct left right).toFinset = left.toFinset ∪ right.toFinset := by
  ext token
  simp only [List.mem_toFinset, Finset.mem_union, mem_mergeDistinct]

theorem tokenSets_append (groups others : List Group) :
    tokenSets (groups ++ others) = tokenSets groups ∪ tokenSets others := by
  rw [tokenSets, List.map_append, List.toFinset_append, ← tokenSets, ← tokenSets]

/-- The groups of a product have the tokens of a left and a right group. -/
theorem tokenSets_distribute (lefts rights : List Group) :
    tokenSets (distribute lefts rights) = tokenSets lefts ⊻ tokenSets rights := by
  ext tokens
  simp only [mem_tokenSets, Finset.mem_sups, mem_distribute]
  constructor
  · rintro ⟨_, ⟨left, hl, right, hr, rfl⟩, rfl⟩
    exact ⟨_, ⟨left, hl, rfl⟩, _, ⟨right, hr, rfl⟩, (toFinset_mergeDistinct left right).symm⟩
  · rintro ⟨_, ⟨left, hl, rfl⟩, _, ⟨right, hr, rfl⟩, rfl⟩
    exact ⟨_, ⟨left, hl, right, hr, rfl⟩, toFinset_mergeDistinct left right⟩

/-- Dropping repeats loses no set of tokens. -/
theorem tokenSets_dropRepeats (groups : List Group) :
    tokenSets (dropRepeats ∅ groups) = tokenSets groups := by
  ext tokens
  rw [mem_tokenSets, mem_tokenSets]
  constructor
  · rintro ⟨group, hg, rfl⟩
    exact ⟨group, (dropRepeats_sublist ∅ groups).subset hg, rfl⟩
  · rintro ⟨group, hg, rfl⟩
    obtain ⟨kept, hkept, hkey⟩ := exists_mem_dropRepeats hg Std.ExtTreeSet.not_mem_empty
    exact ⟨kept, hkept, toFinset_eq_iff_groupKey_eq.mpr hkey⟩

/-- The token sets of a node over two operands, from those of the operands. -/
def joinSets : Connective → Finset (Finset Token) → Finset (Finset Token) → Finset (Finset Token)
  | .and, first, second => first ⊻ second
  | .or, first, second => first ∪ second

theorem joinSets_left_comm (op : Connective) (first second third : Finset (Finset Token)) :
    joinSets op first (joinSets op second third) =
      joinSets op second (joinSets op first third) := by
  cases op with
  | and => exact Finset.sups_left_comm first second third
  | or => exact Finset.union_left_comm first second third

/-- The token sets of a node are joined from those of its first operand and of a node over the
others. -/
theorem tokenSets_expand_node_cons (op : Connective) (e : Expr) (es : List Expr) :
    tokenSets (expand (.node op (e :: es))) =
      joinSets op (tokenSets (expand e)) (tokenSets (expand (.node op es))) := by
  cases op with
  | or => rw [expand, expandAny, tokenSets_append, joinSets, expand]
  | and =>
    have hunit : distribute [[]] (expand e) = expand e := expand_node_singleton .and e
    rw [expand, expandAll, hunit, expandAll_eq_distribute, tokenSets_distribute, joinSets, expand]

/-- The operands of a node may change places. -/
theorem tokenSets_expand_node_perm (op : Connective) {operands others : List Expr}
    (h : operands.Perm others) :
    tokenSets (expand (.node op operands)) = tokenSets (expand (.node op others)) := by
  induction h with
  | nil => rfl
  | cons e _ ih => rw [tokenSets_expand_node_cons, ih, ← tokenSets_expand_node_cons]
  | swap e f es =>
    simp only [tokenSets_expand_node_cons]
    exact joinSets_left_comm op _ _ _
  | trans _ _ ihfirst ihsecond => exact ihfirst.trans ihsecond

/-- An operand may be replaced by another one with the same token sets. -/
theorem tokenSets_expand_node_operand (op : Connective) (before after : List Expr) {e f : Expr}
    (h : tokenSets (expand e) = tokenSets (expand f)) :
    tokenSets (expand (.node op (before ++ e :: after))) =
      tokenSets (expand (.node op (before ++ f :: after))) := by
  induction before with
  | nil => rw [List.nil_append, List.nil_append, tokenSets_expand_node_cons, h,
      ← tokenSets_expand_node_cons]
  | cons first before ih => rw [List.cons_append, List.cons_append, tokenSets_expand_node_cons, ih,
      ← tokenSets_expand_node_cons]

/-- What all alternatives are joined with may be joined with the disjunction of them. -/
theorem tokenSets_expand_map_and (e : Expr) (alternatives : List Expr) (f : Expr → List Expr) :
    tokenSets (expand (.node .or (alternatives.map fun b => .node .and (e :: f b)))) =
      tokenSets (expand e) ⊻
        tokenSets (expand (.node .or (alternatives.map fun b => .node .and (f b)))) := by
  induction alternatives with
  | nil => exact Finset.sups_empty.symm
  | cons b alternatives ih =>
    rw [List.map_cons, List.map_cons, tokenSets_expand_node_cons, tokenSets_expand_node_cons, ih,
      tokenSets_expand_node_cons]
    exact Finset.sups_union_right.symm

/-- A disjunction may be multiplied out with the operands that stand behind it. -/
theorem tokenSets_expand_multiplyOut_nil (alternatives after : List Expr) :
    tokenSets (expand (.node .and (.node .or alternatives :: after))) =
      tokenSets (expand (.node .or (alternatives.map fun e => .node .and (e :: after)))) := by
  rw [tokenSets_expand_node_cons]
  induction alternatives with
  | nil => exact Finset.empty_sups
  | cons e alternatives ih =>
    rw [List.map_cons, tokenSets_expand_node_cons, tokenSets_expand_node_cons, ← ih,
      tokenSets_expand_node_cons]
    exact Finset.sups_union_left

/-- A disjunction among the operands of a conjunction may be multiplied out. -/
theorem tokenSets_expand_multiplyOut (before alternatives after : List Expr) :
    tokenSets (expand (.node .and (before ++ .node .or alternatives :: after))) =
      tokenSets
        (expand (.node .or (alternatives.map fun e => .node .and (before ++ e :: after)))) := by
  induction before with
  | nil => exact tokenSets_expand_multiplyOut_nil alternatives after
  | cons first before ih =>
    have hjoin := tokenSets_expand_map_and first alternatives fun e => before ++ e :: after
    rw [← ih] at hjoin
    exact (tokenSets_expand_node_cons .and first _).trans hjoin.symm

/-- A rearrangement keeps the sets of tokens that the groups have. -/
theorem tokenSets_expand_of_rearranges {e f : Expr} (h : Rearranges e f) :
    tokenSets (expand e) = tokenSets (expand f) := by
  induction h with
  | permute op h => exact tokenSets_expand_node_perm op h
  | multiplyOut before alternatives after =>
    exact tokenSets_expand_multiplyOut before alternatives after
  | operand op before after _ ih => exact tokenSets_expand_node_operand op before after ih

/-- Any number of rearrangements keep the sets of tokens. -/
theorem tokenSets_expand_of_rearranged {e f : Expr} (h : Rearranged e f) :
    tokenSets (expand e) = tokenSets (expand f) := by
  induction h with
  | rel e f h => exact tokenSets_expand_of_rearranges h
  | refl e => rfl
  | symm e f _ ih => exact ih.symm
  | trans e f g _ _ ihfirst ihsecond => exact ihfirst.trans ihsecond

/-- The sets of tokens of a normal form are listed once each. -/
theorem nodup_map_toFinset_ofExpr (e : Expr) : ((ofExpr e).groups.map List.toFinset).Nodup := by
  rw [List.nodup_iff_pairwise_ne, List.pairwise_map]
  refine (pairwise_dropRepeats ∅ (expand e)).1.imp ?_
  intro first second hkeys hsame
  exact hkeys (toFinset_eq_iff_groupKey_eq.mp hsame)

/-- Normal forms with the same token sets differ only in the order of the groups and in the order
of the tokens inside the groups: the groups of the second can be put in the order of the first. -/
theorem exists_perm_of_tokenSets_eq {e f : Expr}
    (h : tokenSets (ofExpr e).groups = tokenSets (ofExpr f).groups) :
    ∃ groups, List.Forall₂ List.Perm (ofExpr e).groups groups ∧
      groups.Perm (ofExpr f).groups := by
  have hnodup : ∀ e, ∀ group ∈ (ofExpr e).groups, group.Nodup := fun e group hg =>
    nodup_of_mem_expand e group ((dropRepeats_sublist ∅ (expand e)).subset hg)
  have hsets : ((ofExpr e).groups.map List.toFinset).Perm
      ((ofExpr f).groups.map List.toFinset) :=
    List.perm_of_nodup_nodup_toFinset_eq (nodup_map_toFinset_ofExpr e) (nodup_map_toFinset_ofExpr f)
      h
  have hfirst : List.Forall₂ (fun tokens group => group.Nodup ∧ group.toFinset = tokens)
      ((ofExpr f).groups.map List.toFinset) (ofExpr f).groups := by
    rw [List.forall₂_map_left_iff, List.forall₂_same]
    exact fun group hg => ⟨hnodup f group hg, rfl⟩
  obtain ⟨groups, hgroups, hperm⟩ := List.perm_comp_forall₂ hsets hfirst
  rw [List.forall₂_map_left_iff] at hgroups
  have hboth := (List.forall₂_and_left _ _).mpr ⟨hnodup e, hgroups⟩
  refine ⟨groups, hboth.imp ?_, hperm⟩
  rintro group other ⟨hg, ho, hsame⟩
  exact List.perm_of_nodup_nodup_toFinset_eq hg ho hsame.symm

/-- However an expression is rearranged, by changing the places of operands and by multiplying out
disjunctions or the reverse, the groups of its normal form have the same sets of tokens. They come
at most in another order, and so do the tokens of a group. -/
theorem tokenSets_ofExpr_of_rearranged {e f : Expr} (h : Rearranged e f) :
    tokenSets (ofExpr e).groups = tokenSets (ofExpr f).groups ∧
      ∃ groups, List.Forall₂ List.Perm (ofExpr e).groups groups ∧
        groups.Perm (ofExpr f).groups := by
  have hsets : tokenSets (ofExpr e).groups = tokenSets (ofExpr f).groups := by
    rw [ofExpr, ofExpr, tokenSets_dropRepeats, tokenSets_dropRepeats,
      tokenSets_expand_of_rearranged h]
  exact ⟨hsets, exists_perm_of_tokenSets_eq hsets⟩

/-- A disjunction is multiplied out two levels below the root, then another one at the root with
its operands in the reverse order. -/
theorem tokenSets_ofExpr_of_rearranged_twice :
    let below := Expr.node .and [.literal "c", .node .or [.literal "a", .literal "b"]]
    let multiplied := Expr.node .or
      [.node .and [.literal "c", .literal "a"], .node .and [.literal "c", .literal "b"]]
    let e := Expr.node .and [.literal "a", .node .or [.literal "b", below]]
    let f := Expr.node .or
      [.node .and [.literal "b", .literal "a"], .node .and [multiplied, .literal "a"]]
    Rearranged e f ∧
      (ofExpr e).groups = [["a", "b"], ["a", "c"], ["a", "c", "b"]] ∧
      (ofExpr f).groups = [["b", "a"], ["c", "a"], ["c", "b", "a"]] ∧
      tokenSets (ofExpr e).groups = tokenSets (ofExpr f).groups ∧
        ∃ groups, List.Forall₂ List.Perm (ofExpr e).groups groups ∧
          groups.Perm (ofExpr f).groups := by
  intro below multiplied e f
  have hbelow : Rearranges e (.node .and [.literal "a", .node .or [.literal "b", multiplied]]) :=
    .operand .and [.literal "a"] []
      (.operand .or [.literal "b"] []
        (.multiplyOut [.literal "c"] [.literal "a", .literal "b"] []))
  have hreverse : Rearranges (.node .and [.literal "a", .node .or [.literal "b", multiplied]])
      (.node .and [.node .or [.literal "b", multiplied], .literal "a"]) :=
    .permute .and (.swap _ _ _)
  have hroot : Rearranges (.node .and [.node .or [.literal "b", multiplied], .literal "a"]) f :=
    .multiplyOut [] [.literal "b", multiplied] [.literal "a"]
  have h : Rearranged e f :=
    ((Relation.EqvGen.rel _ _ hbelow).trans _ _ _ (.rel _ _ hreverse)).trans _ _ _
      (.rel _ _ hroot)
  exact ⟨h, by decide +kernel, by decide +kernel, tokenSets_ofExpr_of_rearranged h⟩

/-- To have the same value is not enough: no group absorbs another. -/
example :
    (ofExpr (.node .or [.literal "a", .node .and [.literal "a", .literal "b"]])).groups =
      [["a"], ["a", "b"]] := by
  decide +kernel

end NormalForm

end TokenSearch
