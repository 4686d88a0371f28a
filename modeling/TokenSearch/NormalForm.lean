import Std.Data.ExtTreeSet
import TokenSearch.Expr

/-!
# Normal forms

A normal form is a disjunction of groups, and a group is a conjunction of tokens. An expression
is brought into normal form by distributing `&` over `|`. A group keeps the first occurrence of
each of its tokens, and of several groups with the same tokens the first is kept, so the order
of groups and tokens is that of the expression.
-/

namespace TokenSearch

/-- A conjunction of tokens. -/
abbrev Group := List Token

/-- A disjunction of groups. -/
structure NormalForm where
  groups : List Group
  deriving DecidableEq, Repr

namespace NormalForm

/-- Every left group combined with every right group, the left one most significant. -/
def distribute (lefts rights : List Group) : List Group :=
  lefts.flatMap fun left => rights.map (mergeDistinct left)

mutual

/-- The groups of an expression, those with equal tokens included. -/
def expand : Expr → List Group
  | .literal token => [[token]]
  | .node .or operands => expandAny operands
  | .node .and operands => expandAll [[]] operands

/-- The groups of a disjunction. -/
def expandAny : List Expr → List Group
  | [] => []
  | e :: es => expand e ++ expandAny es

/-- The groups of a conjunction whose earlier operands have the groups `lefts`. -/
def expandAll (lefts : List Group) : List Expr → List Group
  | [] => lefts
  | e :: es => expandAll (distribute lefts (expand e)) es

end

theorem expandAny_eq_flatMap (es : List Expr) : expandAny es = es.flatMap expand := by
  induction es with
  | nil => rfl
  | cons e es ih => simp [expandAny, ih]

theorem expandAll_eq_foldl (lefts : List Group) (es : List Expr) :
    expandAll lefts es = es.foldl (fun lefts e => distribute lefts (expand e)) lefts := by
  induction es generalizing lefts with
  | nil => rfl
  | cons e es ih => simp [expandAll, ih]

/-- The tokens of a group in ascending order: groups with the same tokens have the same key. -/
def groupKey (group : Group) : List Token := (Std.ExtTreeSet.ofList group).toList

/-- Drop each group whose key is among the seen ones or belongs to an earlier group. -/
def dropRepeats (seen : Std.ExtTreeSet (List Token)) : List Group → List Group
  | [] => []
  | group :: groups =>
    if groupKey group ∈ seen then dropRepeats seen groups
    else group :: dropRepeats (seen.insert (groupKey group)) groups

/-- The normal form of an expression. -/
def ofExpr (e : Expr) : NormalForm := ⟨dropRepeats ∅ (expand e)⟩

/-- The only token of a form that is one group of one token. -/
def singleLiteral? (form : NormalForm) : Option Token :=
  match form.groups with
  | [[token]] => some token
  | _ => none

/-- Whether no disjunction is left. -/
def isConjunction (form : NormalForm) : Bool := form.groups.length == 1

/-- The value of a form when each token has the value that `truth` gives it. -/
def holds (truth : Token → Bool) (form : NormalForm) : Bool :=
  form.groups.any fun group => group.all truth

/-- The text of a form, an expression without parentheses. -/
def text (form : NormalForm) : String :=
  " | ".intercalate (form.groups.map fun group => " & ".intercalate group)

end NormalForm

end TokenSearch
