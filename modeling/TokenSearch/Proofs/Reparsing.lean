import TokenSearch.Proofs.LeftmostFault
import TokenSearch.Proofs.Spelling

/-!
# Reading back what was printed

The symbols of an expression are a phrase that denotes its rebuilding, at any depth that leaves
room for its groups. Where a group does not fit, the scan finds everything in order up to its
parenthesis, so nothing but the nesting is at fault. Together these say what comes of reading
the text of any expression.
-/

namespace TokenSearch.Grammar

/-- Two chains with the connective between them are one. -/
theorem Chain.append {op : Connective} {Phrase : Language} {symbols further : List Symbol}
    {es fs : List Expr} (h : Chain op Phrase symbols es) (hfurther : Chain op Phrase further fs) :
    Chain op Phrase (symbols ++ .connective op :: further) (es ++ fs) := by
  induction h with
  | single phrase => exact .more phrase hfurther
  | more phrase _ ih =>
    rw [List.append_assoc]
    exact .more phrase ih

/-- A phrase that denotes a canonical expression is a chain of its own. -/
theorem Chained.single {Phrase : Language} {symbols : List Symbol} {e : Expr}
    (h : Phrase symbols e) (he : e.Canonical) (op : Connective) : Chained op Phrase symbols e :=
  ⟨[e], .single h, Expr.combine_singleton he op⟩

/-- A chain in front of another denotes one operand more. -/
theorem Chained.more {op : Connective} {Phrase : Language} (hfaithful : Faithful Phrase)
    {symbols further : List Symbol} {e : Expr} {es : List Expr} (hes : ∀ e ∈ es, e.Canonical)
    (h : Chained op Phrase symbols e) (hfurther : Chained op Phrase further (Expr.combine op es)) :
    Chained op Phrase (symbols ++ .connective op :: further) (Expr.combine op (e :: es)) := by
  obtain ⟨first, hfirst, rfl⟩ := h
  obtain ⟨others, hothers, hcombine⟩ := hfurther
  have hfirstCanonical := (hfirst.faithful hfaithful).2.1
  have hothersCanonical := (hothers.faithful hfaithful).2.1
  exact ⟨first ++ others, hfirst.append hothers,
    Expr.combine_append hfirstCanonical hothersCanonical hes hcombine⟩

/-- Chains with the connective between them denote the combination of what each denotes. -/
theorem Chained.intercalate {α : Type} {op : Connective} {Phrase : Language}
    (hfaithful : Faithful Phrase) {symbols : α → List Symbol} {denoted : α → Expr}
    {operands : List α} (nonempty : operands ≠ [])
    (h : ∀ e ∈ operands, Chained op Phrase (symbols e) (denoted e)) :
    Chained op Phrase ([Symbol.connective op].intercalate (operands.map symbols))
      (Expr.combine op (operands.map denoted)) := by
  have hcanonical : ∀ e ∈ operands.map denoted, e.Canonical :=
    List.forall_mem_map.mpr fun e he => (hfaithful.chained op).canonical (h e he)
  induction operands with
  | nil => exact absurd rfl nonempty
  | cons e operands ih =>
    obtain ⟨he, hoperands⟩ := List.forall_mem_cons.mp h
    obtain ⟨hfirst, hothers⟩ := List.forall_mem_cons.mp hcanonical
    cases operands with
    | nil =>
      rw [List.map_cons, List.map_nil, List.map_cons, List.map_nil, List.intercalate_singleton,
        Expr.combine_singleton hfirst]
      exact he
    | cons second operands =>
      have hmore := Chained.more hfaithful hothers he (ih (List.cons_ne_nil _ _) hoperands hothers)
      simpa using hmore

/-- A conjunction is a disjunction. -/
theorem Conjunction.disjunction {depth : Nat} {symbols : List Symbol} {e : Expr}
    (h : Conjunction depth symbols e) : Disjunction depth symbols e :=
  Chained.single h (((faithful_operand depth).chained .and).canonical h) .or

/-- A literal is an operand at any depth. -/
theorem operand_literal (depth : Nat) (token : Token) :
    Operand depth [.literal token] (.literal token) := by
  cases depth with
  | zero => exact .literal token
  | succ depth => exact .literal token

/-- An operand of a conjunction is a conjunction below it, or a disjunction that a group makes an
operand of its own. -/
theorem conjunction_operandSymbols {depth : Nat} {e : Expr} (h : e.Populated)
    (hdepth : ∀ path ∈ e.paths, Expr.groupsOn (.and :: path) ≤ depth)
    (hplain : ¬ Expr.Parenthesized .and e → Conjunction depth e.symbols e.rebuild)
    (hgroup : ∀ inside, (∀ path ∈ e.paths, Expr.groupsOn path ≤ inside) →
      Disjunction inside e.symbols e.rebuild) :
    Conjunction depth (e.operandSymbols .and) e.rebuild := by
  rw [Expr.operandSymbols]
  split
  · rename_i hparenthesized
    have hroom : ∀ path ∈ e.paths, Expr.groupsOn path + 1 ≤ depth := by
      intro path hpath
      rw [← Expr.groupsOn_cons_of_parenthesized hparenthesized hpath]
      exact hdepth path hpath
    obtain ⟨path, hpath⟩ := List.exists_mem_of_ne_nil e.paths h.paths_ne_nil
    obtain ⟨inside, rfl⟩ : ∃ inside, depth = inside + 1 :=
      Nat.exists_eq_add_one.mpr (Nat.lt_of_lt_of_le (Nat.succ_pos _) (hroom path hpath))
    have hinside := hgroup inside fun path hpath => Nat.le_of_succ_le_succ (hroom path hpath)
    exact Chained.single (LiteralOr.group hinside) h.canonical_rebuild .and
  · rename_i hparenthesized
    exact hplain hparenthesized

/-- The symbols of an expression whose groups fit denote its rebuilding. They are a conjunction
unless the expression is a disjunction. -/
theorem denotes_rebuild {e : Expr} (h : e.Populated) {depth : Nat}
    (hdepth : ∀ path ∈ e.paths, Expr.groupsOn path ≤ depth) :
    Disjunction depth e.symbols e.rebuild ∧
      (e.isDisjunction = false → Conjunction depth e.symbols e.rebuild) := by
  induction h generalizing depth with
  | literal token =>
    have hconjunction : Conjunction depth [.literal token] (.literal token) :=
      Chained.single (operand_literal depth token) (.literal token) .and
    exact ⟨hconjunction.disjunction, fun _ => hconjunction⟩
  | @node op operands nonempty populated ih =>
    have hbelow := Expr.forall_mem_paths_node.mp hdepth
    rw [Expr.symbols_node, Expr.rebuild_node]
    cases op with
    | or =>
      have hoperands : ∀ e ∈ operands, Disjunction depth (e.operandSymbols .or) e.rebuild := by
        intro e he
        rw [Expr.operandSymbols, if_neg (Expr.not_parenthesized_or e)]
        exact (ih e he (hbelow e he)).1
      have hfaithful := (faithful_operand depth).chained .and
      refine ⟨Chained.intercalate hfaithful nonempty hoperands, ?_⟩
      intro hconjunction
      cases hconjunction
    | and =>
      have hoperands : ∀ e ∈ operands, Conjunction depth (e.operandSymbols .and) e.rebuild := by
        intro e he
        refine conjunction_operandSymbols (populated e he) (hbelow e he) ?_ fun inside hinside =>
          (ih e he hinside).1
        intro hplain
        have hfits : ∀ path ∈ e.paths, Expr.groupsOn path ≤ depth := by
          intro path hpath
          rw [← Expr.groupsOn_cons_of_not_parenthesized hplain hpath]
          exact hbelow e he path hpath
        exact (ih e he hfits).2 (by simpa [Expr.Parenthesized] using hplain)
      have hconjunction : Conjunction depth _ _ :=
        Chained.intercalate (faithful_operand depth) nonempty hoperands
      exact ⟨hconjunction.disjunction, fun _ => hconjunction⟩

end TokenSearch.Grammar

namespace TokenSearch.FaultScan

open TokenSearch.Expr (groupsOn)

/-- The scan goes over the symbols of a phrase where its groups fit, and stops at a group that is
too deep where they do not. -/
structure GoesOver (opened : List Nat) (symbols : List Symbol) (fits : Prop) : Prop where
  /-- Behind the phrase, an operand has been gone over and the same groups are open. -/
  passed : fits → ∀ {place lexemes}, lexemes.map Lexeme.symbol = symbols → ∀ rest,
    faultFrom ⟨opened, .operand place⟩ (lexemes ++ rest) = faultFrom ⟨opened, .connective⟩ rest
  /-- No other fault comes before that of the depth. -/
  tooDeep : ¬ fits → ∀ {place lexemes}, lexemes.map Lexeme.symbol = symbols → ∀ rest,
    faultFrom ⟨opened, .operand place⟩ (lexemes ++ rest) = some .tooDeep

theorem GoesOver.literal (opened : List Nat) (token : Token) {fits : Prop} (h : fits) :
    GoesOver opened [.literal token] fits where
  passed := by
    intro _ place lexemes hlexemes rest
    obtain ⟨⟨symbol, position⟩, tail, rfl, hsymbol, htail⟩ := List.map_eq_cons_iff.mp hlexemes
    obtain rfl : symbol = .literal token := hsymbol
    obtain rfl := List.map_eq_nil_iff.mp htail
    rfl
  tooDeep := fun hnot => absurd h hnot

private theorem exists_lexemes_of_group {lexemes : List Lexeme} {symbols : List Symbol}
    (h : lexemes.map Lexeme.symbol = .openGroup :: symbols ++ [.closeGroup]) :
    ∃ position inside close, inside.map Lexeme.symbol = symbols ∧
      lexemes = ⟨.openGroup, position⟩ :: (inside ++ [⟨.closeGroup, close⟩]) := by
  obtain ⟨opened, closed, rfl, hopened, hclosed⟩ := List.map_eq_append_iff.mp h
  obtain ⟨⟨symbol, position⟩, inside, rfl, hsymbol, hinside⟩ := List.map_eq_cons_iff.mp hopened
  obtain ⟨⟨last, close⟩, empty, rfl, hlast, hempty⟩ := List.map_eq_cons_iff.mp hclosed
  obtain rfl : symbol = .openGroup := hsymbol
  obtain rfl : last = .closeGroup := hlast
  obtain rfl := List.map_eq_nil_iff.mp hempty
  exact ⟨position, inside, close, hinside, rfl⟩

private theorem exists_lexemes_of_more {lexemes : List Lexeme} {symbols further : List Symbol}
    {op : Connective} (h : lexemes.map Lexeme.symbol = symbols ++ .connective op :: further) :
    ∃ first position others, first.map Lexeme.symbol = symbols ∧
      others.map Lexeme.symbol = further ∧
      lexemes = first ++ ⟨.connective op, position⟩ :: others := by
  obtain ⟨first, tail, rfl, hfirst, htail⟩ := List.map_eq_append_iff.mp h
  obtain ⟨⟨symbol, position⟩, others, rfl, hsymbol, hothers⟩ := List.map_eq_cons_iff.mp htail
  obtain rfl : symbol = .connective op := hsymbol
  exact ⟨first, position, others, hfirst, hothers, rfl⟩

/-- A group is gone over when one more parenthesis may be opened and its inside fits. -/
theorem GoesOver.group {opened : List Nat} {symbols : List Symbol} {fits : Prop}
    (h : opened.length < nestingLimit → ∀ position, GoesOver (position :: opened) symbols fits) :
    GoesOver opened (.openGroup :: symbols ++ [.closeGroup])
      (opened.length < nestingLimit ∧ fits) where
  passed := by
    rintro ⟨hroom, hfits⟩ place lexemes hlexemes rest
    obtain ⟨position, inside, close, hinside, rfl⟩ := exists_lexemes_of_group hlexemes
    rw [List.cons_append, faultFrom_openGroup hroom, List.append_assoc,
      (h hroom position).passed hfits hinside]
    rfl
  tooDeep := by
    intro hnot place lexemes hlexemes rest
    obtain ⟨position, inside, close, hinside, rfl⟩ := exists_lexemes_of_group hlexemes
    by_cases hroom : opened.length < nestingLimit
    · rw [List.cons_append, faultFrom_openGroup hroom, List.append_assoc]
      exact (h hroom position).tooDeep (fun hfits => hnot ⟨hroom, hfits⟩) hinside _
    · exact faultFrom_tooDeep hroom place position _

/-- Phrases with a connective between them are gone over when both are. -/
theorem GoesOver.more {opened : List Nat} {symbols further : List Symbol} {fits others : Prop}
    (h : GoesOver opened symbols fits) (op : Connective)
    (hfurther : GoesOver opened further others) :
    GoesOver opened (symbols ++ .connective op :: further) (fits ∧ others) where
  passed := by
    rintro ⟨hfits, hothers⟩ place lexemes hlexemes rest
    obtain ⟨first, position, behind, hfirst, hbehind, rfl⟩ := exists_lexemes_of_more hlexemes
    rw [List.append_assoc, h.passed hfits hfirst, List.cons_append, faultFrom_connective,
      hfurther.passed hothers hbehind]
  tooDeep := by
    intro hnot place lexemes hlexemes rest
    obtain ⟨first, position, behind, hfirst, hbehind, rfl⟩ := exists_lexemes_of_more hlexemes
    rw [List.append_assoc]
    by_cases hfits : fits
    · rw [h.passed hfits hfirst, List.cons_append, faultFrom_connective]
      exact hfurther.tooDeep (fun hothers => hnot ⟨hfits, hothers⟩) hbehind rest
    · exact h.tooDeep hfits hfirst _

/-- Phrases with a connective between them are gone over when each of them is. -/
theorem GoesOver.intercalate {opened : List Nat} {symbols : Expr → List Symbol} {fits : Expr → Prop}
    {operands : List Expr} (nonempty : operands ≠ []) (op : Connective)
    (h : ∀ e ∈ operands, GoesOver opened (symbols e) (fits e)) :
    GoesOver opened ([Symbol.connective op].intercalate (operands.map symbols))
      (∀ e ∈ operands, fits e) := by
  induction operands with
  | nil => exact absurd rfl nonempty
  | cons e operands ih =>
    obtain ⟨he, hoperands⟩ := List.forall_mem_cons.mp h
    cases operands with
    | nil => simpa using he
    | cons second operands =>
      have hmore := he.more op (ih (List.cons_ne_nil _ _) hoperands)
      rw [← List.forall_mem_cons] at hmore
      simpa using hmore

/-- A group fits when one more parenthesis may be opened and the groups inside fit behind it. -/
theorem groupsOn_le_iff_of_parenthesized {op : Connective} {e : Expr} (h : e.Populated)
    (hparenthesized : Expr.Parenthesized op e) (count : Nat) :
    (∀ path ∈ e.paths, count + groupsOn (op :: path) ≤ nestingLimit) ↔
      count < nestingLimit ∧ ∀ path ∈ e.paths, count + 1 + groupsOn path ≤ nestingLimit := by
  have hgroups : ∀ path ∈ e.paths, groupsOn (op :: path) = groupsOn path + 1 := fun path hpath =>
    Expr.groupsOn_cons_of_parenthesized hparenthesized hpath
  constructor
  · intro hfits
    obtain ⟨path, hpath⟩ := List.exists_mem_of_ne_nil e.paths h.paths_ne_nil
    have hroom := hfits path hpath
    rw [hgroups path hpath] at hroom
    refine ⟨by omega, ?_⟩
    intro path hpath
    have hpathFits := hfits path hpath
    rw [hgroups path hpath] at hpathFits
    omega
  · rintro ⟨-, hfits⟩ path hpath
    have hinside := hfits path hpath
    rw [hgroups path hpath]
    omega

/-- The symbols of an expression are gone over when the groups on each of its paths fit. -/
theorem goesOver_symbols {e : Expr} (h : e.Populated) {opened : List Nat}
    (hopened : opened.length ≤ nestingLimit) :
    GoesOver opened e.symbols
      (∀ path ∈ e.paths, opened.length + groupsOn path ≤ nestingLimit) := by
  induction h generalizing opened with
  | literal token => exact .literal opened token (by simpa [Expr.paths, groupsOn] using hopened)
  | @node op operands nonempty populated ih =>
    have hoperands : ∀ e ∈ operands, GoesOver opened (e.operandSymbols op)
        (∀ path ∈ e.paths, opened.length + groupsOn (op :: path) ≤ nestingLimit) := by
      intro e he
      rw [Expr.operandSymbols]
      split
      · rename_i hparenthesized
        rw [groupsOn_le_iff_of_parenthesized (populated e he) hparenthesized]
        exact .group fun hroom position => ih e he hroom
      · rename_i hplain
        have hgroups : ∀ path ∈ e.paths, groupsOn (op :: path) = groupsOn path := fun path hpath =>
          Expr.groupsOn_cons_of_not_parenthesized hplain hpath
        simpa +contextual only [hgroups] using ih e he hopened
    rw [Expr.symbols_node, Expr.forall_mem_paths_node]
    exact .intercalate nonempty op hoperands

end TokenSearch.FaultScan

namespace TokenSearch.Expr

/-- The text of an expression over tokens has a cut into its symbols. -/
theorem exists_cut_text {e : Expr} (h : ∀ token ∈ e.leaves, isToken token = true) :
    ∃ lexemes, lexemes.map Lexeme.symbol = e.symbols ∧ Lexeme.Cut 0 e.text.toList lexemes :=
  (spells_text h).exists_cut

/-- An expression whose groups fit is read back as its rebuilding. -/
theorem parse_text_of_groupsOn_le {e : Expr} (h : e.Populated)
    (htokens : ∀ token ∈ e.leaves, isToken token = true)
    (hfits : ∀ path ∈ e.paths, groupsOn path ≤ nestingLimit) : parse e.text = .ok e.rebuild := by
  obtain ⟨lexemes, hsymbols, hcut⟩ := exists_cut_text htokens
  rw [parse_eq_ok_iff_of_cut hcut, hsymbols]
  exact (Grammar.denotes_rebuild h hfits).1

/-- An expression with a group that does not fit is too deep. -/
theorem parse_text_of_lt_groupsOn {e : Expr} (h : e.Populated)
    (htokens : ∀ token ∈ e.leaves, isToken token = true)
    (hdeep : ∃ path ∈ e.paths, nestingLimit < groupsOn path) :
    parse e.text = .error .tooDeep := by
  obtain ⟨lexemes, hsymbols, hcut⟩ := exists_cut_text htokens
  obtain ⟨path, hpath, hlt⟩ := hdeep
  have hscan : FaultScan.GoesOver [] e.symbols _ := FaultScan.goesOver_symbols h (Nat.zero_le _)
  rw [parse_eq_error_iff_of_cut hcut, ← List.append_nil lexemes]
  refine hscan.tooDeep ?_ hsymbols []
  intro hfits
  have hle := hfits path hpath
  simp only [List.length_nil, Nat.zero_add] at hle
  omega

/-- What was read is its own rebuilding, and its groups fit. -/
theorem rebuild_groupsOn_of_parse {s : String} {e : Expr} (h : parse s = .ok e) :
    e.rebuild = e ∧ ∀ path ∈ e.paths, groupsOn path ≤ nestingLimit := by
  obtain ⟨lexemes, -, hphrase⟩ := parse_eq_ok_iff.mp h
  exact ⟨(canonical_of_parse h).rebuild_eq, Grammar.Disjunction.groupsOn_le hphrase⟩

/-- What was read has tokens for literals. -/
theorem isToken_of_parse {s : String} {e : Expr} (h : parse s = .ok e) :
    ∀ token ∈ e.leaves, isToken token = true := by
  obtain ⟨lexemes, hcut, hphrase⟩ := parse_eq_ok_iff.mp h
  intro token ht
  rw [(Grammar.faithful_disjunction nestingLimit).leaves hphrase, Grammar.mem_literals] at ht
  obtain ⟨lexeme, hl, hsymbol⟩ := List.mem_map.mp ht
  exact (hcut.symbols lexeme hl).2 token hsymbol

/-- The text of an expression without empty nodes over tokens is read back as its rebuilding,
when on no path down to a literal more than 128 disjunctions stand right below a conjunction.
Otherwise it is too deep. What was read from any text is its own rebuilding and never too deep,
so that its text is read back as it was. -/
theorem parse_text :
    (∀ e : Expr, e.Populated → (∀ token ∈ e.leaves, isToken token = true) →
      ((∀ path ∈ e.paths, groupsOn path ≤ 128) → parse e.text = .ok e.rebuild) ∧
      ((∃ path ∈ e.paths, 128 < groupsOn path) → parse e.text = .error .tooDeep)) ∧
    ∀ (s : String) (e : Expr), parse s = .ok e →
      e.rebuild = e ∧ (∀ path ∈ e.paths, groupsOn path ≤ 128) ∧ parse e.text = .ok e := by
  constructor
  · intro e h htokens
    exact ⟨parse_text_of_groupsOn_le h htokens, parse_text_of_lt_groupsOn h htokens⟩
  · intro s e h
    obtain ⟨hrebuild, hfits⟩ := rebuild_groupsOn_of_parse h
    have hread := parse_text_of_groupsOn_le (canonical_of_parse h).populated (isToken_of_parse h)
      hfits
    rw [hrebuild] at hread
    exact ⟨hrebuild, hfits, hread⟩

/-- A token below conjunctions and disjunctions by turns, each of them over one operand. -/
def alternating (token : Token) : Nat → Expr
  | 0 => .literal token
  | depth + 1 => .node .and [.node .or [alternating token depth]]

theorem populated_alternating (token : Token) (depth : Nat) :
    (alternating token depth).Populated := by
  induction depth with
  | zero => exact .literal token
  | succ depth ih => simpa [alternating] using ih

/-- The limit is met by 128 groups around a token, which all disappear, and passed by 129. -/
theorem parse_text_alternating :
    (alternating "a" 128).Populated ∧ (∀ token ∈ (alternating "a" 128).leaves, isToken token) ∧
      parse (alternating "a" 128).text = .ok (.literal "a") ∧
      parse (alternating "a" 129).text = .error .tooDeep := by
  have hfits := (parse_text.1 _ (populated_alternating "a" 128) (by decide +kernel)).1
    (by decide +kernel)
  have hdeep := (parse_text.1 _ (populated_alternating "a" 129) (by decide +kernel)).2
    (by decide +kernel)
  rw [show (alternating "a" 128).rebuild = .literal "a" by decide +kernel] at hfits
  exact ⟨populated_alternating "a" 128, by decide +kernel, hfits, hdeep⟩

end TokenSearch.Expr
