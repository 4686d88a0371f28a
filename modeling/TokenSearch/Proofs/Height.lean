import Mathlib.Data.List.Chain
import TokenSearch.NormalForm
import TokenSearch.Proofs.Reparsing
import TokenSearch.Proofs.Traversal

/-!
# How high an expression is

In a canonical expression the connectives take turns on every path, and each disjunction that stands
right below a conjunction is a group. So a path is at most twice as long as it has groups, and two
connectives longer. A query has no more groups on a path than parentheses may be open, and its
expression is no higher than that allows, however long the query is. What is computed from the
leaves of an expression upwards needs one call for each connective of a path and one for the
literal at its end, so for a query it never needs more than the limit on parentheses allows.
-/

namespace TokenSearch

namespace Expr

/-- On a path of a canonical expression the connectives take turns, since no operand is a node of
the kind that its parent has. -/
theorem Canonical.isChain_of_mem_paths {e : Expr} (h : e.Canonical) :
    ∀ path ∈ e.paths, path.IsChain (· ≠ ·) := by
  induction h with
  | literal token => simp [paths]
  | @node op operands _ flat _ ih =>
    rw [forall_mem_paths_node]
    intro e he below hbelow
    cases below with
    | nil => exact List.isChain_singleton op
    | cons kind rest =>
      refine List.isChain_cons_cons.mpr ⟨?_, ih e he _ hbelow⟩
      rintro rfl
      cases e with
      | literal token => simp [paths] at hbelow
      | node other inner =>
        obtain ⟨_, _, _, _, hpath⟩ := mem_paths_node.mp hbelow
        obtain rfl := (List.cons.inj hpath).1
        exact flat inner he

/-- Below a conjunction, connectives that take turns are at most twice as many as the groups. -/
theorem length_le_of_isChain_and : ∀ {path : List Connective},
    (Connective.and :: path).IsChain (· ≠ ·) → path.length ≤ 2 * groupsOn (.and :: path)
  | [], _ => Nat.zero_le _
  | [.or], _ => by decide
  | .and :: _, h => absurd rfl (List.isChain_cons_cons.mp h).1
  | .or :: .or :: _, h => absurd rfl (List.isChain_cons_cons.mp h.tail).1
  | .or :: .and :: path, h => by
    have hbelow := length_le_of_isChain_and h.tail.tail
    simp only [List.length_cons, groupsOn_and_or]
    omega

/-- Connectives that take turns are at most twice as many as the groups, and two more. -/
theorem length_le_of_isChain {path : List Connective} (h : path.IsChain (· ≠ ·)) :
    path.length ≤ 2 * groupsOn path + 2 := by
  match path, h with
  | [], _ => exact Nat.zero_le _
  | [.or], _ => decide
  | .and :: below, h =>
    have hbelow := length_le_of_isChain_and h
    rw [List.length_cons]
    omega
  | .or :: .or :: _, h => exact absurd rfl (List.isChain_cons_cons.mp h).1
  | .or :: .and :: below, h =>
    have hbelow := length_le_of_isChain_and h.tail
    rw [List.length_cons, List.length_cons, groupsOn_or]
    omega

/-- How a value is computed from the leaves of an expression upwards: what a literal gives, and what
a node gives from its operands with the values that they have. -/
structure Recursion (α : Type) where
  literal : Token → α
  node : Connective → List (Expr × α) → α

namespace Recursion

variable {α : Type}

/-- Compute the value of an expression with at most `depth` calls inside each other. -/
def within? (recursion : Recursion α) : (depth : Nat) → Expr → Option α
  | 0, _ => none
  | _ + 1, .literal token => some (recursion.literal token)
  | depth + 1, .node op operands =>
    (operands.mapM fun e => (recursion.within? depth e).map (e, ·)).map (recursion.node op)

/-- A recursion computes a function. -/
structure Computes (recursion : Recursion α) (f : Expr → α) : Prop where
  literal (token : Token) : f (.literal token) = recursion.literal token
  node (op : Connective) (operands : List Expr) :
    f (.node op operands) = recursion.node op (operands.map fun e => (e, f e))

/-- One call for each connective of a path and one for the literal at its end are enough. -/
theorem Computes.within?_eq_some {recursion : Recursion α} {f : Expr → α}
    (hf : recursion.Computes f) {e : Expr} (h : e.Populated) {depth : Nat}
    (hdepth : ∀ path ∈ e.paths, path.length < depth) :
    recursion.within? depth e = some (f e) := by
  induction h generalizing depth with
  | literal token =>
    obtain ⟨depth, rfl⟩ := Nat.exists_eq_add_one.mpr (hdepth [] (List.mem_singleton_self _))
    rw [within?, hf.literal]
  | @node op operands nonempty populated ih =>
    have hnode : (Expr.node op operands).Populated := .node nonempty populated
    obtain ⟨path, hpath⟩ := List.exists_mem_of_ne_nil _ hnode.paths_ne_nil
    obtain ⟨depth, rfl⟩ := Nat.exists_eq_add_one.mpr (Nat.zero_lt_of_lt (hdepth path hpath))
    rw [forall_mem_paths_node] at hdepth
    have hoperands : ∀ e ∈ operands,
        (recursion.within? depth e).map (e, ·) = some (e, f e) := by
      intro e he
      have hbelow : ∀ below ∈ e.paths, below.length < depth := fun below hb =>
        Nat.lt_of_succ_lt_succ (hdepth e he below hb)
      rw [ih e he hbelow, Option.map_some]
    rw [within?, mapM_eq_some hoperands, Option.map_some, hf.node]

/-- No fewer calls are enough. -/
theorem within?_eq_none {recursion : Recursion α} {e : Expr} {path : List Connective}
    (hpath : path ∈ e.paths) {depth : Nat} (hdepth : depth ≤ path.length) :
    recursion.within? depth e = none := by
  induction depth generalizing e path with
  | zero => rfl
  | succ depth ih =>
    cases e with
    | literal token =>
      rw [List.mem_singleton.mp hpath] at hdepth
      cases hdepth
    | node op operands =>
      obtain ⟨e, he, below, hbelow, rfl⟩ := mem_paths_node.mp hpath
      have hoperand : (recursion.within? depth e).map (e, ·) = none := by
        rw [ih hbelow (Nat.le_of_succ_le_succ hdepth), Option.map_none]
      rw [within?, mapM_eq_none he hoperand, Option.map_none]

end Recursion

/-- Whether an expression holds, from whether its operands do. -/
def holdsRecursion (truth : Token → Bool) : Recursion Bool where
  literal := truth
  node
    | .and, operands => operands.all (·.2)
    | .or, operands => operands.any (·.2)

theorem computes_holds (truth : Token → Bool) : (holdsRecursion truth).Computes (holds truth) where
  literal _ := rfl
  node op operands := by cases op <;> simp [holdsRecursion, Function.comp_def]

/-- The literals of an expression behind those that were seen before it, which its operands take
over from each other. -/
def literalsRecursion : Recursion (List Token → List Token) where
  literal token seen := appendNew seen token
  node _ operands seen := operands.foldl (fun seen operand => operand.2 seen) seen

theorem computes_literals :
    literalsRecursion.Computes fun e seen => mergeDistinct seen e.leaves where
  literal _ := rfl
  node op operands := by
    funext seen
    rw [leaves_node, mergeDistinct, List.foldl_flatMap]
    simp only [literalsRecursion, List.foldl_map, mergeDistinct]

/-- The text of an expression, from the texts of its operands. -/
def textRecursion : Recursion String where
  literal token := token
  node op operands := (" ".push op.symbol ++ " ").intercalate <| operands.map fun operand =>
    if Parenthesized op operand.1 then "(" ++ operand.2 ++ ")" else operand.2

theorem computes_text : textRecursion.Computes text where
  literal _ := rfl
  node op operands := by
    simp only [text_node, textRecursion, List.map_map]
    rfl

/-- The groups of an expression, from the groups of its operands. -/
def groupsRecursion : Recursion (List Group) where
  literal token := [[token]]
  node
    | .and, operands =>
      operands.foldl (fun lefts operand => NormalForm.distribute lefts operand.2) [[]]
    | .or, operands => operands.flatMap (·.2)

theorem computes_expand : groupsRecursion.Computes NormalForm.expand where
  literal _ := rfl
  node op operands := by
    cases op with
    | and =>
      rw [NormalForm.expand, NormalForm.expandAll_eq_foldl]
      simp only [groupsRecursion, List.foldl_map]
    | or =>
      rw [NormalForm.expand, NormalForm.expandAny_eq_flatMap]
      simp only [groupsRecursion, List.flatMap_map]

/-- All that is computed from the leaves of an expression upwards takes at most `depth` calls inside
each other. -/
structure ComputedWithin (depth : Nat) (e : Expr) : Prop where
  holds (truth : Token → Bool) : (holdsRecursion truth).within? depth e = some (e.holds truth)
  literals : (literalsRecursion.within? depth e).map (· []) = some e.literals
  text : textRecursion.within? depth e = some e.text
  groups : groupsRecursion.within? depth e = some (NormalForm.expand e)

/-- On a path of a query's expression there are at most two connectives for each of the 128
parentheses that may be open, and two more. They take turns. So what is computed from the leaves
upwards takes at most 259 calls inside each other, however long the query is. -/
theorem height_of_parse {s : String} {e : Expr} (h : parse s = .ok e) :
    (∀ path ∈ e.paths, path.length ≤ 258 ∧ path.IsChain (· ≠ ·)) ∧ e.ComputedWithin 259 := by
  have hcanonical := canonical_of_parse h
  have hchain := hcanonical.isChain_of_mem_paths
  have hlength : ∀ path ∈ e.paths, path.length ≤ 258 := by
    intro path hpath
    have hle := length_le_of_isChain (hchain path hpath)
    have hgroups : groupsOn path ≤ 128 := (rebuild_groupsOn_of_parse h).2 path hpath
    omega
  have hwithin {α : Type} {recursion : Recursion α} {f : Expr → α} (hf : recursion.Computes f) :
      recursion.within? 259 e = some (f e) :=
    hf.within?_eq_some hcanonical.populated fun path hpath => Nat.lt_succ_of_le (hlength path hpath)
  refine ⟨fun path hpath => ⟨hlength path hpath, hchain path hpath⟩, ?_, ?_, ?_, ?_⟩
  · exact fun truth => hwithin (computes_holds truth)
  · rw [hwithin computes_literals]
    rfl
  · exact hwithin computes_text
  · exact hwithin computes_expand

/-- A disjunction over a conjunction over a disjunction, and so on. -/
def staircase : Nat → Expr
  | 0 => .node .or [.literal "a", .node .and [.literal "b", .literal "c"]]
  | depth + 1 => .node .or [.literal "a", .node .and [.literal "b", staircase depth]]

theorem canonical_staircase (depth : Nat) : (staircase depth).Canonical := by
  have hpair (op : Connective) (token : Token) {e : Expr} (h : e.Canonical)
      (hkind : ∀ inner, .node op inner ≠ e) : (node op [.literal token, e]).Canonical := by
    refine .node (Nat.le_refl 2) (by simpa using hkind) ?_
    simpa using ⟨.literal token, h⟩
  induction depth with
  | zero => exact hpair .or "a" (hpair .and "b" (.literal "c") nofun) nofun
  | succ depth ih =>
    have hdisjunction : ∀ inner, .node .and inner ≠ staircase depth := by
      cases depth <;> simp [staircase]
    exact hpair .or "a" (hpair .and "b" ih hdisjunction) nofun

/-- The literals of a staircase, and its longest path. -/
theorem staircase_limits (depth : Nat) :
    (∀ token ∈ (staircase depth).leaves, isToken token = true) ∧
      (∀ path ∈ (staircase depth).paths, groupsOn path ≤ depth) ∧
      ∃ path ∈ (staircase depth).paths, path.length = 2 * (depth + 1) := by
  have htokens : isToken "a" = true ∧ isToken "b" = true := by decide +kernel
  induction depth with
  | zero => decide +kernel
  | succ depth ih =>
    obtain ⟨hleaves, hgroups, path, hpath, hlength⟩ := ih
    refine ⟨by simpa [staircase, htokens] using hleaves, ?_, .or :: .and :: path, ?_, ?_⟩
    · simp only [staircase, forall_mem_paths_node, List.forall_mem_cons]
      refine ⟨by simp [paths, groupsOn], ⟨by simp [paths, groupsOn], ?_, nofun⟩, nofun⟩
      intro below hbelow
      exact Nat.le_trans (groupsOn_cons .and below).2 (Nat.succ_le_succ (hgroups below hbelow))
    · simp [staircase, mem_paths_node, hpath]
    · simp only [List.length_cons, hlength]
      omega

/-- With 128 parentheses open a path has 258 connectives, and 258 calls are too few. -/
theorem height_of_parse_staircase :
    let e := staircase 128
    parse e.text = .ok e ∧ (∃ path ∈ e.paths, path.length = 258) ∧
      textRecursion.within? 258 e = none ∧
      (∀ path ∈ e.paths, path.length ≤ 258 ∧ path.IsChain (· ≠ ·)) ∧ e.ComputedWithin 259 := by
  intro e
  have hcanonical : e.Canonical := canonical_staircase 128
  obtain ⟨htokens, hgroups, path, hpath, hlength⟩ := staircase_limits 128
  have hparse := parse_text_of_groupsOn_le hcanonical.populated htokens hgroups
  rw [hcanonical.rebuild_eq] at hparse
  exact ⟨hparse, ⟨path, hpath, hlength⟩, Recursion.within?_eq_none hpath hlength.ge,
    height_of_parse hparse⟩

end Expr

end TokenSearch
