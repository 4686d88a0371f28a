import TokenSearch.Proofs.Grammar
import TokenSearch.Proofs.Rebuild

/-!
# How deep groups are nested

An expression is written with a group for each disjunction that stands right below a
conjunction, so on the way down to a literal as many parentheses are open as there are such
disjunctions. In an expression that a phrase denotes these are never more than the parentheses
that are open in the phrase: combining removes groups and makes no new ones.
-/

namespace TokenSearch.Expr

mutual

/-- The connectives on the ways from the root down to each of the literals. -/
def paths : Expr → List (List Connective)
  | .literal _ => [[]]
  | .node op operands => (pathsOf operands).map (op :: ·)

/-- The connectives on the ways down to the literals of a list of expressions. -/
def pathsOf : List Expr → List (List Connective)
  | [] => []
  | e :: es => paths e ++ pathsOf es

end

theorem pathsOf_eq_flatMap (es : List Expr) : pathsOf es = es.flatMap paths := by
  induction es with
  | nil => rfl
  | cons e es ih => rw [pathsOf, ih, List.flatMap_cons]

/-- A path of a node begins with its connective and goes on below one of its operands. -/
theorem mem_paths_node {op : Connective} {operands : List Expr} {path : List Connective} :
    path ∈ (node op operands).paths ↔ ∃ e ∈ operands, ∃ below ∈ e.paths, op :: below = path := by
  simp only [paths, pathsOf_eq_flatMap, List.mem_map, List.mem_flatMap]
  constructor
  · rintro ⟨below, ⟨e, he, hbelow⟩, rfl⟩
    exact ⟨e, he, below, hbelow, rfl⟩
  · rintro ⟨e, he, below, hbelow, rfl⟩
    exact ⟨below, ⟨e, he, hbelow⟩, rfl⟩

/-- What holds of the paths below all operands, with the connective on top, holds of all paths. -/
theorem forall_mem_paths_node {op : Connective} {operands : List Expr}
    {P : List Connective → Prop} :
    (∀ path ∈ (node op operands).paths, P path) ↔
      ∀ e ∈ operands, ∀ below ∈ e.paths, P (op :: below) := by
  constructor
  · intro h e he below hbelow
    exact h _ (mem_paths_node.mpr ⟨e, he, below, hbelow, rfl⟩)
  · intro h path hpath
    obtain ⟨e, he, below, hbelow, rfl⟩ := mem_paths_node.mp hpath
    exact h e he below hbelow

/-- An expression without empty nodes has a literal, and so a path. -/
theorem Populated.paths_ne_nil {e : Expr} (h : e.Populated) : e.paths ≠ [] := by
  induction h with
  | literal token => exact List.cons_ne_nil _ _
  | @node op operands nonempty _ ih =>
    obtain ⟨e, he⟩ := List.exists_mem_of_ne_nil operands nonempty
    obtain ⟨below, hbelow⟩ := List.exists_mem_of_ne_nil e.paths (ih e he)
    exact List.ne_nil_of_mem (mem_paths_node.mpr ⟨e, he, below, hbelow, rfl⟩)

/-- The number of disjunctions on a path that stand right below a conjunction. -/
def groupsOn : List Connective → Nat
  | .and :: .or :: path => groupsOn path + 1
  | _ :: path => groupsOn path
  | [] => 0

@[simp] theorem groupsOn_or (path : List Connective) : groupsOn (.or :: path) = groupsOn path :=
  rfl

@[simp] theorem groupsOn_and_and (path : List Connective) :
    groupsOn (.and :: .and :: path) = groupsOn (.and :: path) := rfl

@[simp] theorem groupsOn_and_or (path : List Connective) :
    groupsOn (.and :: .or :: path) = groupsOn path + 1 := rfl

/-- A connective more above a path opens at most one group. -/
theorem groupsOn_cons (op : Connective) (path : List Connective) :
    groupsOn path ≤ groupsOn (op :: path) ∧ groupsOn (op :: path) ≤ groupsOn path + 1 := by
  cases op with
  | or => simp
  | and =>
    match path with
    | [] => simp [groupsOn]
    | .or :: path => simp
    | .and :: path => simp

/-- A connective above another of its kind opens no group. -/
theorem groupsOn_twice (op : Connective) (path : List Connective) :
    groupsOn (op :: op :: path) = groupsOn (op :: path) := by
  cases op <;> rfl

/-- An operand is put in parentheses when it is a disjunction under a conjunction. -/
def Parenthesized (op : Connective) (e : Expr) : Prop := op = .and ∧ e.isDisjunction = true

instance (op : Connective) (e : Expr) : Decidable (Parenthesized op e) :=
  inferInstanceAs (Decidable (_ ∧ _))

/-- No operand of a disjunction is put in parentheses. -/
theorem not_parenthesized_or (e : Expr) : ¬ Parenthesized .or e := by
  simp [Parenthesized]

/-- Above an operand in parentheses a path has one group more. -/
theorem groupsOn_cons_of_parenthesized {op : Connective} {e : Expr} (h : Parenthesized op e)
    {path : List Connective} (hpath : path ∈ e.paths) :
    groupsOn (op :: path) = groupsOn path + 1 := by
  obtain ⟨rfl, hdisjunction⟩ := h
  match e, hdisjunction with
  | .node .or operands, _ =>
    obtain ⟨e, he, below, hbelow, rfl⟩ := mem_paths_node.mp hpath
    simp

/-- Above an operand without parentheses a path has no more groups. -/
theorem groupsOn_cons_of_not_parenthesized {op : Connective} {e : Expr}
    (h : ¬ Parenthesized op e) {path : List Connective} (hpath : path ∈ e.paths) :
    groupsOn (op :: path) = groupsOn path := by
  cases op with
  | or => rfl
  | and =>
    match e, h with
    | .literal token, _ =>
      obtain rfl := List.mem_singleton.mp hpath
      rfl
    | .node .or operands, h => exact absurd ⟨rfl, rfl⟩ h
    | .node .and operands, _ =>
      obtain ⟨e, he, below, hbelow, rfl⟩ := mem_paths_node.mp hpath
      simp

/-- A path of a combination is one of its parts, with the connective added or removed on top
where the combination has spliced or made a node. -/
theorem exists_path_of_combine {op : Connective} {es : List Expr} {path : List Connective}
    (h : path ∈ (combine op es).paths) :
    ∃ e ∈ es, ∃ below ∈ e.paths, path = below ∨ path = op :: below ∨ op :: path = below := by
  have hpart : ∀ operand ∈ es.flatMap (operandsFor op), ∀ inner ∈ operand.paths,
      ∃ e ∈ es, inner ∈ e.paths ∨ op :: inner ∈ e.paths := by
    intro operand ho inner hinner
    obtain ⟨e, he, ho⟩ := List.mem_flatMap.mp ho
    refine ⟨e, he, ?_⟩
    rcases operandsFor_cases op e with ⟨operands, rfl, hoperands⟩ | hself
    · rw [hoperands] at ho
      exact Or.inr (mem_paths_node.mpr ⟨operand, ho, inner, hinner, rfl⟩)
    · rw [hself] at ho
      rw [← List.mem_singleton.mp ho]
      exact Or.inl hinner
  rcases combine_cases op es with hone | ⟨hnode, -⟩
  · obtain ⟨e, he, hpath | hpath⟩ := hpart _ (by simp [hone]) path h
    · exact ⟨e, he, path, hpath, Or.inl rfl⟩
    · exact ⟨e, he, _, hpath, Or.inr (Or.inr rfl)⟩
  · rw [hnode] at h
    obtain ⟨operand, ho, inner, hinner, rfl⟩ := mem_paths_node.mp h
    obtain ⟨e, he, hpath | hpath⟩ := hpart operand ho inner hinner
    · exact ⟨e, he, inner, hpath, Or.inr (Or.inl rfl)⟩
    · exact ⟨e, he, _, hpath, Or.inl rfl⟩

/-- A path of a combination has no more groups than one of its parts below the connective. -/
theorem exists_groupsOn_le_of_combine {op : Connective} {es : List Expr} {path : List Connective}
    (h : path ∈ (combine op es).paths) :
    ∃ e ∈ es, ∃ below ∈ e.paths, groupsOn path ≤ groupsOn (op :: below) := by
  obtain ⟨e, he, below, hbelow, hpath⟩ := exists_path_of_combine h
  refine ⟨e, he, below, hbelow, ?_⟩
  rcases hpath with rfl | rfl | rfl
  · exact (groupsOn_cons op path).1
  · exact Nat.le_refl _
  · rw [groupsOn_twice]
    exact (groupsOn_cons op path).1

end TokenSearch.Expr

namespace TokenSearch.Grammar

open TokenSearch.Expr (groupsOn)

/-- Each part of a chain is denoted by a phrase. -/
theorem Chain.exists_phrase {op : Connective} {Phrase : Language} {symbols : List Symbol}
    {es : List Expr} (h : Chain op Phrase symbols es) :
    ∀ e ∈ es, ∃ part, Phrase part e := by
  induction h with
  | single phrase => simpa using ⟨_, phrase⟩
  | more phrase _ ih => exact List.forall_mem_cons.mpr ⟨⟨_, phrase⟩, ih⟩

/-- The groups below the connective of a chain are those of its phrases. -/
theorem Chained.groupsOn_le {op : Connective} {Phrase : Language} {limit : Nat}
    (h : ∀ {symbols e}, Phrase symbols e → ∀ path ∈ e.paths, groupsOn (op :: path) ≤ limit)
    {symbols : List Symbol} {e : Expr} (hphrase : Chained op Phrase symbols e) :
    ∀ path ∈ e.paths, groupsOn path ≤ limit := by
  obtain ⟨es, hchain, rfl⟩ := hphrase
  intro path hpath
  obtain ⟨part, hpart, below, hbelow, hle⟩ := Expr.exists_groupsOn_le_of_combine hpath
  obtain ⟨symbols, hsymbols⟩ := hchain.exists_phrase part hpart
  exact Nat.le_trans hle (h hsymbols below hbelow)

/-- The groups of a disjunction are those of the operands of its conjunctions. -/
theorem groupsOn_le_of_disjunction {depth : Nat}
    (h : ∀ {symbols e}, Operand depth symbols e → ∀ path ∈ e.paths,
      groupsOn (.and :: path) ≤ depth)
    {symbols : List Symbol} {e : Expr} (hphrase : Disjunction depth symbols e) :
    ∀ path ∈ e.paths, groupsOn path ≤ depth :=
  hphrase.groupsOn_le fun hconjunction => hconjunction.groupsOn_le h

/-- An operand, also when it is a group of its own, has no more groups than its depth allows. -/
theorem groupsOn_le_of_operand (depth : Nat) {symbols : List Symbol} {e : Expr}
    (hphrase : Operand depth symbols e) : ∀ path ∈ e.paths, groupsOn (.and :: path) ≤ depth := by
  induction depth generalizing symbols e with
  | zero =>
    cases hphrase with
    | literal token => simp [Expr.paths, groupsOn]
    | group inside => exact inside.elim
  | succ depth ih =>
    cases hphrase with
    | literal token => simp [Expr.paths, groupsOn]
    | group inside =>
      intro path hpath
      have hinside := groupsOn_le_of_disjunction ih inside path hpath
      exact Nat.le_trans (Expr.groupsOn_cons .and path).2 (Nat.succ_le_succ hinside)

/-- What a phrase denotes has no more groups on a path than parentheses may be open. -/
theorem Disjunction.groupsOn_le {depth : Nat} {symbols : List Symbol} {e : Expr}
    (hphrase : Disjunction depth symbols e) : ∀ path ∈ e.paths, groupsOn path ≤ depth :=
  groupsOn_le_of_disjunction (groupsOn_le_of_operand depth) hphrase

end TokenSearch.Grammar
