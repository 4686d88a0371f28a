import Mathlib.Data.List.Infix
import TokenSearch.Proofs.Reparsing

/-!
# How deep a text is nested

The nesting of a text is the largest number of its parentheses that are open at the same time. A
phrase leaves none of its parentheses open, so of two phrases with a connective between them the
deeper one counts, and a pair of parentheses around a phrase adds one. The nesting alone decides
which depths a phrase fits in, and where it is found to be too deep. So a text that is read can be
put into parentheses as long as it is nested less deep than the limit.
-/

namespace TokenSearch

/-- The largest number of opening signs that are not closed again, over all beginnings of a list. -/
def peak {α : Type} [DecidableEq α] (opening closing : α) : List α → Nat
  | [] => 0
  | a :: as =>
    if a = opening then peak opening closing as + 1
    else if a = closing then peak opening closing as - 1
    else peak opening closing as

section Peak

variable {α : Type} [DecidableEq α] {opening closing : α}

/-- The peak is a bound for what any beginning has opened and not closed, and the least one. -/
theorem peak_le_iff (hne : opening ≠ closing) {as : List α} {n : Nat} :
    peak opening closing as ≤ n ↔
      ∀ front, front <+: as → front.count opening ≤ front.count closing + n := by
  induction as generalizing n with
  | nil => simp [peak]
  | cons a as ih =>
    have hfronts : (∀ front, front <+: a :: as → front.count opening ≤ front.count closing + n) ↔
        ∀ front, front <+: as →
          (a :: front).count opening ≤ (a :: front).count closing + n := by
      simp only [List.prefix_cons_iff]
      constructor
      · intro h front hfront
        exact h _ (Or.inr ⟨front, rfl, hfront⟩)
      · rintro h _ (rfl | ⟨front, rfl, hfront⟩)
        · exact Nat.zero_le _
        · exact h front hfront
    rw [hfronts, peak]
    by_cases ho : a = opening
    · subst ho
      simp only [if_pos, List.count_cons_self, List.count_cons_of_ne hne]
      cases n with
      | zero =>
        refine ⟨nofun, fun h => absurd (h [] List.nil_prefix) ?_⟩
        simp
      | succ n => simpa only [Nat.add_le_add_iff_right, ← Nat.add_assoc] using ih
    · by_cases hc : a = closing
      · subst hc
        have hcount (front : List α) : front.count opening ≤ front.count a + 1 + n ↔
            front.count opening ≤ front.count a + (n + 1) := by omega
        simp only [if_neg ho, if_pos, List.count_cons_self, List.count_cons_of_ne ho, hcount,
          Nat.sub_le_iff_le_add]
        exact ih
      · simpa only [if_neg ho, if_neg hc, List.count_cons_of_ne ho,
          List.count_cons_of_ne hc] using ih

/-- What neither opens nor closes anything may stand in front. -/
theorem peak_append_of_not_mem {as : List α} (hopening : opening ∉ as) (hclosing : closing ∉ as)
    (bs : List α) : peak opening closing (as ++ bs) = peak opening closing bs := by
  induction as with
  | nil => rfl
  | cons a as ih =>
    rw [List.mem_cons, not_or] at hopening hclosing
    rw [List.cons_append, peak, if_neg (Ne.symm hopening.1), if_neg (Ne.symm hclosing.1),
      ih hopening.2 hclosing.2]

end Peak

/-- The largest number of parentheses of a text that are open at the same time. -/
def nesting (s : String) : Nat := peak '(' ')' s.toList

namespace Grammar

open TokenSearch.FaultScan (GoesOver)

/-- The largest number of parentheses of a phrase that are open at the same time. -/
def nesting (symbols : List Symbol) : Nat := peak .openGroup .closeGroup symbols

@[simp] theorem nesting_nil : nesting [] = 0 := rfl

@[simp] theorem nesting_literal (token : Token) (rest : List Symbol) :
    nesting (.literal token :: rest) = nesting rest := rfl

@[simp] theorem nesting_connective (op : Connective) (rest : List Symbol) :
    nesting (.connective op :: rest) = nesting rest := rfl

@[simp] theorem nesting_openGroup (rest : List Symbol) :
    nesting (.openGroup :: rest) = nesting rest + 1 := rfl

@[simp] theorem nesting_closeGroup (rest : List Symbol) :
    nesting (.closeGroup :: rest) = nesting rest - 1 := rfl

/-- Symbols that leave no parenthesis open are as deep as they are wherever they stand. -/
def Balanced (symbols : List Symbol) : Prop :=
  ∀ rest, nesting (symbols ++ rest) = max (nesting symbols) (nesting rest)

/-- Of two parts with a connective between them the deeper one counts. -/
theorem Balanced.nesting_more {symbols : List Symbol} (h : Balanced symbols) (op : Connective)
    (further : List Symbol) :
    nesting (symbols ++ .connective op :: further) = max (nesting symbols) (nesting further) :=
  h (.connective op :: further)

/-- Parentheses around a part make it deeper by one. -/
theorem Balanced.nesting_group {symbols : List Symbol} (h : Balanced symbols) :
    nesting (.openGroup :: symbols ++ [.closeGroup]) = nesting symbols + 1 := by
  rw [List.cons_append, nesting_openGroup, h, nesting_closeGroup, nesting_nil, Nat.zero_sub,
    Nat.max_zero]

theorem Balanced.literal (token : Token) : Balanced [.literal token] := by
  intro rest
  simp

theorem Balanced.more {symbols further : List Symbol} (h : Balanced symbols) (op : Connective)
    (hfurther : Balanced further) : Balanced (symbols ++ .connective op :: further) := by
  intro rest
  rw [h.nesting_more, List.append_assoc, List.cons_append, h.nesting_more, hfurther, max_assoc]

theorem Balanced.group {symbols : List Symbol} (h : Balanced symbols) :
    Balanced (.openGroup :: symbols ++ [.closeGroup]) := by
  intro rest
  rw [h.nesting_group, List.cons_append, List.cons_append, List.append_assoc, nesting_openGroup, h,
    List.singleton_append, nesting_closeGroup]
  omega

/-- What the nesting of a phrase decides about it. -/
structure Measured (Phrase : Nat → Prop) (symbols : List Symbol) : Prop where
  balanced : Balanced symbols
  /-- It is a phrase at every depth that is no less. -/
  fits {depth : Nat} (h : nesting symbols ≤ depth) : Phrase depth
  /-- The scan goes over it when so many more parentheses may be opened, and else finds it too
  deep. -/
  goesOver {opened : List Nat} (h : opened.length ≤ nestingLimit) :
    GoesOver opened symbols (opened.length + nesting symbols ≤ nestingLimit)

theorem Measured.imp {Phrase Other : Nat → Prop} {symbols : List Symbol}
    (h : Measured Phrase symbols) (himp : ∀ depth, Phrase depth → Other depth) :
    Measured Other symbols :=
  ⟨h.balanced, fun hdepth => himp _ (h.fits hdepth), h.goesOver⟩

/-- A whole text may open as many parentheses as the limit. -/
theorem Measured.goesOver_nil {Phrase : Nat → Prop} {symbols : List Symbol}
    (h : Measured Phrase symbols) : GoesOver [] symbols (nesting symbols ≤ nestingLimit) := by
  simpa using @Measured.goesOver _ _ h [] (Nat.zero_le _)

theorem Measured.literal (token : Token) :
    Measured (Operand · [.literal token] (.literal token)) [.literal token] where
  balanced := .literal token
  fits _ := operand_literal _ token
  goesOver h := .literal _ token h

/-- A group is measured when its inside is. -/
theorem Measured.group {symbols : List Symbol} {e : Expr}
    (h : Measured (Disjunction · symbols e) symbols) :
    Measured (Operand · (.openGroup :: symbols ++ [.closeGroup]) e)
      (.openGroup :: symbols ++ [.closeGroup]) where
  balanced := h.balanced.group
  fits := by
    intro depth hdepth
    rw [h.balanced.nesting_group] at hdepth
    obtain ⟨inside, rfl⟩ := Nat.exists_eq_add_one.mpr (Nat.lt_of_lt_of_le (Nat.succ_pos _) hdepth)
    exact LiteralOr.group (h.fits (Nat.le_of_succ_le_succ hdepth))
  goesOver := by
    intro opened hopened
    have hinside : opened.length < nestingLimit → ∀ position, GoesOver (position :: opened) symbols
        ((opened.length + 1) + nesting symbols ≤ nestingLimit) :=
      fun hroom position => h.goesOver hroom
    have hiff : (opened.length < nestingLimit ∧
        (opened.length + 1) + nesting symbols ≤ nestingLimit) ↔
          opened.length + (nesting symbols + 1) ≤ nestingLimit := by omega
    rw [h.balanced.nesting_group, ← hiff]
    exact .group hinside

/-- A chain is measured when its phrases are. -/
theorem Measured.chain {op : Connective} {Phrase : Nat → Language} {depth : Nat}
    (h : ∀ {symbols e}, Phrase depth symbols e → Measured (Phrase · symbols e) symbols)
    {symbols : List Symbol} {es : List Expr} (hchain : Chain op (Phrase depth) symbols es) :
    Measured (fun depth => Chain op (Phrase depth) symbols es) symbols := by
  induction hchain with
  | single phrase => exact (h phrase).imp fun _ => .single
  | @more symbols rest e es phrase _ ih =>
    have hfirst := h phrase
    refine ⟨hfirst.balanced.more op ih.balanced, ?_, ?_⟩
    · intro depth hdepth
      rw [hfirst.balanced.nesting_more, Nat.max_le] at hdepth
      exact .more (hfirst.fits hdepth.1) (ih.fits hdepth.2)
    · intro opened hopened
      have hmore := (hfirst.goesOver hopened).more op (ih.goesOver hopened)
      have hiff : (opened.length + nesting symbols ≤ nestingLimit ∧
          opened.length + nesting rest ≤ nestingLimit) ↔
            opened.length + max (nesting symbols) (nesting rest) ≤ nestingLimit := by omega
      rwa [hfirst.balanced.nesting_more, ← hiff]

theorem Measured.chained {op : Connective} {Phrase : Nat → Language} {depth : Nat}
    (h : ∀ {symbols e}, Phrase depth symbols e → Measured (Phrase · symbols e) symbols)
    {symbols : List Symbol} {e : Expr} (hphrase : Chained op (Phrase depth) symbols e) :
    Measured (fun depth => Chained op (Phrase depth) symbols e) symbols := by
  obtain ⟨es, hchain, rfl⟩ := hphrase
  exact (Measured.chain h hchain).imp fun _ hfits => ⟨es, hfits, rfl⟩

/-- Disjunctions are measured when the operands of their conjunctions are. -/
theorem measured_disjunction_of_operand {depth : Nat}
    (h : ∀ {symbols e}, Operand depth symbols e → Measured (Operand · symbols e) symbols)
    {symbols : List Symbol} {e : Expr} (hphrase : Disjunction depth symbols e) :
    Measured (Disjunction · symbols e) symbols :=
  Measured.chained (fun hconjunction => Measured.chained h hconjunction) hphrase

theorem measured_operand (depth : Nat) {symbols : List Symbol} {e : Expr}
    (hphrase : Operand depth symbols e) : Measured (Operand · symbols e) symbols := by
  induction depth generalizing symbols e with
  | zero =>
    cases hphrase with
    | literal token => exact .literal token
    | group inside => exact inside.elim
  | succ depth ih =>
    cases hphrase with
    | literal token => exact .literal token
    | group inside => exact (measured_disjunction_of_operand ih inside).group

/-- Every phrase of the grammar is measured by its nesting. -/
theorem measured_disjunction {depth : Nat} {symbols : List Symbol} {e : Expr}
    (hphrase : Disjunction depth symbols e) : Measured (Disjunction · symbols e) symbols :=
  measured_disjunction_of_operand (measured_operand depth) hphrase

end Grammar

/-- A text has the parentheses of its lexemes. -/
theorem Lexeme.Cut.peak_eq {position : Nat} {cs : List Char} {lexemes : List Lexeme}
    (h : Cut position cs lexemes) :
    peak '(' ')' cs = Grammar.nesting (lexemes.map Lexeme.symbol) := by
  have hsigns : isTokenChar '(' = false ∧ isTokenChar ')' = false := by decide
  induction h with
  | done => rfl
  | @blank position c cs lexemes hc _ ih =>
    have hother : c ≠ '(' ∧ c ≠ ')' := by
      constructor <;> rintro rfl <;> exact absurd hc (by decide)
    rw [peak, if_neg hother.1, if_neg hother.2, ih]
  | @sign position c cs symbol lexemes hc _ ih =>
    unfold symbolOf? at hc
    split at hc <;> cases hc <;> simp [peak, ih]
  | @literal position run cs lexemes _ inside _ _ ih =>
    have hopening : '(' ∉ run := by
      intro hmem
      rw [inside _ hmem] at hsigns
      exact absurd hsigns.1 (by decide)
    have hclosing : ')' ∉ run := by
      intro hmem
      rw [inside _ hmem] at hsigns
      exact absurd hsigns.2 (by decide)
    rw [peak_append_of_not_mem hopening hclosing, ih, List.map_cons, Grammar.nesting_literal]

/-- A text has the parentheses of the symbols that it spells. -/
theorem Lexeme.Spells.peak_eq {cs : List Char} {symbols : List Symbol} (h : Spells cs symbols) :
    peak '(' ')' cs = Grammar.nesting symbols := by
  obtain ⟨lexemes, rfl, hcut⟩ := h.exists_cut
  exact hcut.peak_eq

namespace Expr

/-- A text that is read spells a phrase, and the phrase is measured by the nesting of the text. -/
theorem exists_measured_of_parse {s : String} {e : Expr} (h : parse s = .ok e) :
    ∃ symbols, Lexeme.Spells s.toList symbols ∧ Grammar.nesting symbols = nesting s ∧
      Grammar.Measured (Grammar.Disjunction · symbols e) symbols := by
  obtain ⟨lexemes, hcut, hphrase⟩ := parse_eq_ok_iff.mp h
  exact ⟨_, hcut.spells, hcut.peak_eq.symm, Grammar.measured_disjunction hphrase⟩

end Expr

end TokenSearch
