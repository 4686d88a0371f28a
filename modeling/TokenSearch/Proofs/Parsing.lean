import TokenSearch.Expr.Parse
import TokenSearch.Proofs.Grammar
import TokenSearch.Proofs.Lexing

/-!
# Reading follows the grammar

What a successful reader has taken from the front of the lexemes is a phrase of its language,
and a reader takes every phrase that the rest cannot extend. Both are shown for the readers of
operands and chains over any smaller reader, and carried through the depths by induction.
-/

namespace TokenSearch.Expr

/-- The reader takes a phrase that denotes an expression and leaves the rest. -/
def Reads (read : Reader) (place : Place) (lexemes : List Lexeme) (e : Expr)
    (rest : List Lexeme) : Prop :=
  ∃ h, read place lexemes = .ok (e, ⟨rest, h⟩)

/-- The lexemes do not begin with the symbol of a connective. -/
def NotAt (op : Connective) (lexemes : List Lexeme) : Prop :=
  ∀ lexeme ∈ lexemes.head?, lexeme.symbol ≠ .connective op

/-- Further operands are read until the symbol of the connective stands no more. -/
inductive ReadsFurther (op : Connective) (read : Reader) :
    List Lexeme → List Expr → List Lexeme → Prop
  | stop {lexemes : List Lexeme} (h : NotAt op lexemes) : ReadsFurther op read lexemes [] lexemes
  | more {position : Nat} {tail middle rest : List Lexeme} {e : Expr} {es : List Expr}
      (first : Reads read (.afterConnective op position) tail e middle)
      (further : ReadsFurther op read middle es rest) :
      ReadsFurther op read (⟨.connective op, position⟩ :: tail) (e :: es) rest

/-- Further operands that were read are related to what was read of them. -/
theorem readsFurther_of_readFurther {op : Connective} {read : Reader}
    {lexemes rest : List Lexeme} {es : List Expr} {hle}
    (hread : readFurther op read lexemes = .ok (es, ⟨rest, hle⟩)) :
    ReadsFurther op read lexemes es rest := by
  fun_induction readFurther op read lexemes generalizing es rest with
  | case1 => cases hread; exact .stop nofun
  | case2 position tail fault hf => cases hread
  | case3 position tail e middle hlt hf fault hfurther ih => cases hread
  | case4 position tail e middle hlt hf es rest hle hfurther ih =>
    cases hread
    exact .more ⟨hlt, hf⟩ (ih hfurther)
  | case5 symbol position tail hne =>
    cases hread
    have hstop : NotAt op (⟨symbol, position⟩ :: tail) := by
      rintro lexeme ⟨⟩
      exact hne
    exact .stop hstop

/-- The relation fixes what is read. -/
theorem ReadsFurther.eq_ok {op : Connective} {read : Reader} {lexemes rest : List Lexeme}
    {es : List Expr} (h : ReadsFurther op read lexemes es rest) :
    ∃ hle, readFurther op read lexemes = .ok (es, ⟨rest, hle⟩) := by
  induction h with
  | @stop lexemes h =>
    cases lexemes with
    | nil => exact ⟨Nat.le_refl _, by rw [readFurther]⟩
    | cons lexeme tail => exact ⟨Nat.le_refl _, by rw [readFurther, if_neg (h lexeme rfl)]⟩
  | @more position tail middle rest e es first _ ih =>
    obtain ⟨hlt, hfirst⟩ := first
    obtain ⟨hle, hfurther⟩ := ih
    have hlength : rest.length ≤ (⟨.connective op, position⟩ :: tail).length := by
      simp only [List.length_cons]
      omega
    refine ⟨hlength, ?_⟩
    rw [readFurther, if_pos rfl]
    simp only [hfirst, hfurther]

/-- Reading stops before a lexeme that is not the connective. -/
theorem ReadsFurther.notAt {op : Connective} {read : Reader} {lexemes rest : List Lexeme}
    {es : List Expr} (h : ReadsFurther op read lexemes es rest) : NotAt op rest := by
  induction h with
  | stop h => exact h
  | more _ _ ih => exact ih

/-- What a reader promises of the rest still holds behind further operands. -/
theorem ReadsFurther.rest {op : Connective} {read : Reader} {P : List Lexeme → Prop}
    (hread : ∀ ⦃place lexemes e rest⦄, Reads read place lexemes e rest → P rest)
    {lexemes rest : List Lexeme} {es : List Expr} (h : ReadsFurther op read lexemes es rest)
    (hlexemes : P lexemes) : P rest := by
  induction h with
  | stop _ => exact hlexemes
  | more first _ ih => exact ih (hread first)

/-- A chain is read as a first operand and further ones. -/
theorem reads_readChain_iff {op : Connective} {read : Reader} {place : Place}
    {lexemes rest : List Lexeme} {e : Expr} :
    Reads (readChain op read) place lexemes e rest ↔
      ∃ first middle es, Reads read place lexemes first middle ∧
        ReadsFurther op read middle es rest ∧ combine op (first :: es) = e := by
  constructor
  · rintro ⟨hlt, h⟩
    unfold readChain at h
    split at h
    · cases h
    · rename_i first middle hfirst hread
      split at h
      · cases h
      · rename_i es rest' hle hfurther
        cases h
        exact ⟨first, middle, es, ⟨hfirst, hread⟩, readsFurther_of_readFurther hfurther, rfl⟩
  · rintro ⟨first, middle, es, ⟨hfirst, hread⟩, hfurther, rfl⟩
    obtain ⟨hle, hfurther⟩ := hfurther.eq_ok
    have hlt : rest.length < lexemes.length := by omega
    refine ⟨hlt, ?_⟩
    unfold readChain
    simp only [hread, hfurther]

/-- No connective stands behind a disjunction that was read. -/
theorem notAt_of_reads_disjunction {depth : Nat} {place : Place} {lexemes rest : List Lexeme}
    {e : Expr} (h : Reads (disjunction depth) place lexemes e rest) (op : Connective) :
    NotAt op rest := by
  have hconjunction : ∀ ⦃place lexemes e rest⦄,
      Reads (conjunction depth) place lexemes e rest → NotAt .and rest := by
    intro place lexemes e rest h
    obtain ⟨_, _, _, _, hfurther, _⟩ := reads_readChain_iff.mp h
    exact hfurther.notAt
  obtain ⟨_, _, _, hfirst, hfurther, _⟩ := reads_readChain_iff.mp h
  cases op with
  | and => exact hfurther.rest hconjunction (hconjunction hfirst)
  | or => exact hfurther.notAt

/-- An operand is read as a literal, or as a group whose inside a reader takes. -/
theorem reads_readOperand_iff {inner : Option Reader} {place : Place}
    {lexemes rest : List Lexeme} {e : Expr} :
    Reads (readOperand inner) place lexemes e rest ↔
      (∃ token position, lexemes = ⟨.literal token, position⟩ :: rest ∧ e = .literal token) ∨
      ∃ read position tail close, inner = some read ∧ lexemes = ⟨.openGroup, position⟩ :: tail ∧
        Reads read (.afterOpen position) tail e (⟨.closeGroup, close⟩ :: rest) := by
  constructor
  · rintro ⟨hlt, h⟩
    unfold readOperand at h
    split at h
    · rename_i token position tail
      cases h
      exact Or.inl ⟨token, position, rfl, rfl⟩
    · rename_i position tail
      split at h
      · cases h
      · rename_i read
        split at h <;> cases h
        rename_i close hinside hread
        exact Or.inr ⟨read, position, tail, close, rfl, rfl, hinside, hread⟩
    · cases h
    · cases h
  · rintro (⟨token, position, rfl, rfl⟩ | ⟨read, position, tail, close, rfl, rfl, hlt, h⟩)
    · exact ⟨Nat.lt_succ_self _, by rw [readOperand]⟩
    · have hlength : rest.length < (⟨.openGroup, position⟩ :: tail).length := by
        simp only [List.length_cons] at hlt ⊢
        omega
      refine ⟨hlength, ?_⟩
      rw [readOperand]
      simp only [h]

/-- All that a reader takes from the front are phrases of a language. -/
def Sound (read : Reader) (Phrase : Grammar.Language) : Prop :=
  ∀ ⦃place lexemes e rest⦄, Reads read place lexemes e rest →
    ∃ taken, lexemes = taken ++ rest ∧ Phrase (taken.map Lexeme.symbol) e

/-- A reader takes every phrase of a language when the rest closes it. -/
def Complete (read : Reader) (Phrase : Grammar.Language) (Closes : List Lexeme → Prop) : Prop :=
  ∀ ⦃place taken e rest⦄, Phrase (taken.map Lexeme.symbol) e → Closes rest →
    Reads read place (taken ++ rest) e rest

private theorem ReadsFurther.chain {op : Connective} {read : Reader} {Phrase : Grammar.Language}
    (hread : Sound read Phrase) {lexemes rest : List Lexeme} {es : List Expr}
    (h : ReadsFurther op read lexemes es rest) {symbols : List Symbol} {e : Expr}
    (hfirst : Phrase symbols e) :
    ∃ taken, lexemes = taken ++ rest ∧
      Grammar.Chain op Phrase (symbols ++ taken.map Lexeme.symbol) (e :: es) := by
  induction h generalizing symbols e with
  | stop _ => exact ⟨[], rfl, by simpa using .single hfirst⟩
  | @more position tail middle rest next es first _ ih =>
    obtain ⟨taken, rfl, hnext⟩ := hread first
    obtain ⟨further, rfl, hchain⟩ := ih hnext
    have hmore := hchain.more hfirst
    refine ⟨⟨.connective op, position⟩ :: (taken ++ further), by simp, ?_⟩
    rw [List.map_cons, List.map_append]
    exact hmore

/-- Chains of phrases are read soundly when the phrases are. -/
theorem Sound.readChain {read : Reader} {Phrase : Grammar.Language} (h : Sound read Phrase)
    (op : Connective) : Sound (readChain op read) (Grammar.Chained op Phrase) := by
  intro place lexemes e rest hreads
  obtain ⟨first, middle, es, hfirst, hfurther, rfl⟩ := reads_readChain_iff.mp hreads
  obtain ⟨taken, rfl, hphrase⟩ := h hfirst
  obtain ⟨further, rfl, hchain⟩ := hfurther.chain h hphrase
  rw [← List.map_append] at hchain
  exact ⟨taken ++ further, (List.append_assoc taken further rest).symm, first :: es, hchain, rfl⟩

/-- Operands are read soundly when the insides of groups are. -/
theorem sound_readOperand {inner : Option Reader} {Group : Grammar.Language}
    (h : ∀ read ∈ inner, Sound read Group) :
    Sound (readOperand inner) (Grammar.LiteralOr Group) := by
  intro place lexemes e rest hreads
  rcases reads_readOperand_iff.mp hreads with ⟨token, position, rfl, rfl⟩ |
    ⟨read, position, tail, close, hread, rfl, hinside⟩
  · exact ⟨[⟨.literal token, position⟩], rfl, .literal token⟩
  · obtain ⟨taken, rfl, hgroup⟩ := h read hread hinside
    have hphrase := Grammar.LiteralOr.group hgroup
    refine ⟨⟨.openGroup, position⟩ :: (taken ++ [⟨.closeGroup, close⟩]), by simp, ?_⟩
    rw [List.map_cons, List.map_append]
    exact hphrase

/-- What the reader of operands takes is an operand of the grammar. -/
theorem sound_operand (depth : Nat) : Sound (operand depth) (Grammar.Operand depth) := by
  induction depth with
  | zero => exact sound_readOperand fun _ hread => nomatch hread
  | succ depth ih =>
    refine sound_readOperand ?_
    rintro read ⟨⟩
    exact (ih.readChain .and).readChain .or

/-- What the reader of disjunctions takes is a disjunction of the grammar. -/
theorem sound_disjunction (depth : Nat) : Sound (disjunction depth) (Grammar.Disjunction depth) :=
  ((sound_operand depth).readChain .and).readChain .or

private theorem readsFurther_of_chain {op : Connective} {read : Reader}
    {Phrase : Grammar.Language} {Closes : List Lexeme → Prop} (hread : Complete read Phrase Closes)
    (hop : ∀ position tail, Closes (⟨.connective op, position⟩ :: tail))
    {symbols : List Symbol} {es : List Expr} (h : Grammar.Chain op Phrase symbols es)
    (place : Place) {taken rest : List Lexeme} (htaken : taken.map Lexeme.symbol = symbols)
    (hrest : Closes rest) (hstop : NotAt op rest) :
    ∃ first middle further, es = first :: further ∧
      Reads read place (taken ++ rest) first middle ∧ ReadsFurther op read middle further rest := by
  induction h generalizing place taken with
  | single phrase =>
    exact ⟨_, rest, [], rfl, hread (htaken ▸ phrase) hrest, .stop hstop⟩
  | @more symbols others e es phrase _ ih =>
    obtain ⟨begun, lexemes, rfl, hbegun, hlexemes⟩ := List.map_eq_append_iff.mp htaken
    obtain ⟨⟨symbol, position⟩, tail, rfl, hsymbol, htail⟩ := List.map_eq_cons_iff.mp hlexemes
    obtain rfl : symbol = .connective op := hsymbol
    obtain ⟨first, middle, further, rfl, hfirst, hfurther⟩ :=
      ih (.afterConnective op position) htail
    have hbegins : Reads read place (begun ++ ⟨.connective op, position⟩ :: (tail ++ rest)) e
        (⟨.connective op, position⟩ :: (tail ++ rest)) :=
      hread (hbegun ▸ phrase) (hop position (tail ++ rest))
    refine ⟨e, ⟨.connective op, position⟩ :: (tail ++ rest), _, rfl, ?_, .more hfirst hfurther⟩
    rw [List.append_assoc]
    exact hbegins

/-- All chains of phrases are read when the phrases are and the connective closes them. -/
theorem Complete.readChain {read : Reader} {Phrase : Grammar.Language}
    {Closes : List Lexeme → Prop} (h : Complete read Phrase Closes) (op : Connective)
    (hop : ∀ position tail, Closes (⟨.connective op, position⟩ :: tail)) :
    Complete (readChain op read) (Grammar.Chained op Phrase)
      fun rest => Closes rest ∧ NotAt op rest := by
  rintro place taken e rest ⟨es, hchain, rfl⟩ ⟨hrest, hstop⟩
  obtain ⟨first, middle, further, rfl, hfirst, hfurther⟩ :=
    readsFurther_of_chain h hop hchain place rfl hrest hstop
  exact reads_readChain_iff.mpr ⟨first, middle, further, hfirst, hfurther, rfl⟩

/-- All operands are read when the insides of groups are and `)` closes them. -/
theorem complete_readOperand {inner : Option Reader} {Group : Grammar.Language}
    {Closes : List Lexeme → Prop}
    (hclose : ∀ position rest, Closes (⟨.closeGroup, position⟩ :: rest))
    (h : ∀ symbols e, Group symbols e → ∃ read ∈ inner, Complete read Group Closes) :
    Complete (readOperand inner) (Grammar.LiteralOr Group) fun _ => True := by
  intro place taken e rest hphrase _
  generalize hsymbols : taken.map Lexeme.symbol = symbols at hphrase
  cases hphrase with
  | literal token =>
    obtain ⟨⟨symbol, position⟩, tail, rfl, hsymbol, htail⟩ := List.map_eq_cons_iff.mp hsymbols
    obtain rfl : symbol = .literal token := hsymbol
    obtain rfl := List.map_eq_nil_iff.mp htail
    exact reads_readOperand_iff.mpr (Or.inl ⟨token, position, rfl, rfl⟩)
  | @group symbols _ inside =>
    obtain ⟨opened, closed, rfl, hopened, hclosed⟩ := List.map_eq_append_iff.mp hsymbols
    obtain ⟨⟨symbol, position⟩, tail, rfl, hsymbol, htail⟩ := List.map_eq_cons_iff.mp hopened
    obtain ⟨⟨last, close⟩, empty, rfl, hlast, hempty⟩ := List.map_eq_cons_iff.mp hclosed
    obtain rfl : symbol = .openGroup := hsymbol
    obtain rfl : last = .closeGroup := hlast
    obtain rfl := List.map_eq_nil_iff.mp hempty
    obtain ⟨read, hread, hcomplete⟩ := h symbols e inside
    have hinside : Reads read (.afterOpen position) (tail ++ ⟨.closeGroup, close⟩ :: rest) e
        (⟨.closeGroup, close⟩ :: rest) := hcomplete (htail ▸ inside) (hclose close rest)
    apply reads_readOperand_iff.mpr
    exact Or.inr ⟨read, position, tail ++ ⟨.closeGroup, close⟩ :: rest, close, hread, by simp,
      hinside⟩

private theorem Complete.disjunction {depth : Nat}
    (h : Complete (operand depth) (Grammar.Operand depth) fun _ => True) :
    Complete (disjunction depth) (Grammar.Disjunction depth) fun rest => ∀ op, NotAt op rest := by
  have hconjunction := h.readChain .and fun _ _ => trivial
  have hdisjunction := hconjunction.readChain .or fun _ _ => ⟨trivial, by simp [NotAt]⟩
  exact fun place taken e rest hphrase hrest =>
    hdisjunction hphrase ⟨⟨trivial, hrest .and⟩, hrest .or⟩

/-- The reader of operands takes every operand, whatever stands behind it. -/
theorem complete_operand (depth : Nat) :
    Complete (operand depth) (Grammar.Operand depth) fun _ => True := by
  induction depth with
  | zero =>
    exact @complete_readOperand none _ (fun _ => True) (fun _ _ => trivial) fun _ _ h => h.elim
  | succ depth ih =>
    exact complete_readOperand (by simp [NotAt]) fun _ _ _ => ⟨_, rfl, ih.disjunction⟩

/-- The reader of disjunctions takes every disjunction that no connective follows. -/
theorem complete_disjunction (depth : Nat) :
    Complete (disjunction depth) (Grammar.Disjunction depth) fun rest => ∀ op, NotAt op rest :=
  (complete_operand depth).disjunction

/-- All lexemes of a text are read when the end stands behind one disjunction. -/
theorem ofLexemes_eq_ok_iff {lexemes : List Lexeme} {e : Expr} :
    ofLexemes lexemes = .ok e ↔
      ∃ rest, Reads (disjunction nestingLimit) .start lexemes e rest ∧
        ∀ lexeme ∈ rest.head?, lexeme.symbol = .stop := by
  constructor
  · intro h
    unfold ofLexemes at h
    split at h <;> cases h
    · rename_i position rest hlt hread
      exact ⟨⟨.stop, position⟩ :: rest, ⟨hlt, hread⟩, by simp⟩
    · rename_i hlt hread
      exact ⟨[], ⟨hlt, hread⟩, nofun⟩
  · rintro ⟨rest, ⟨hlt, h⟩, hrest⟩
    unfold ofLexemes
    cases rest with
    | nil => simp only [h]
    | cons lexeme rest =>
      obtain ⟨symbol, position⟩ := lexeme
      obtain rfl : symbol = .stop := hrest _ rfl
      simp only [h]

private theorem eq_of_append_stop {body taken rest : List Lexeme} {position : Nat}
    (h : body ++ [⟨.stop, position⟩] = taken ++ rest)
    (hbody : ∀ lexeme ∈ body, lexeme.symbol ≠ .stop)
    (htaken : Symbol.stop ∉ taken.map Lexeme.symbol)
    (hrest : ∀ lexeme ∈ rest.head?, lexeme.symbol = .stop) : taken = body := by
  rcases List.append_eq_append_iff.mp h with ⟨more, rfl, hmore⟩ | ⟨more, rfl, rfl⟩
  · cases more with
    | nil => exact List.append_nil body
    | cons lexeme more =>
      obtain ⟨rfl, -⟩ := List.cons.inj hmore
      exact absurd (by simp) htaken
  · cases more with
    | nil => exact (List.append_nil taken).symm
    | cons lexeme more =>
      have hin : lexeme ∈ taken ++ lexeme :: more := by simp
      exact absurd (hrest lexeme rfl) (hbody lexeme hin)

/-- Lexemes without a stop are read up to the stop behind them. -/
theorem ofLexemes_append_stop {body : List Lexeme} (h : ∀ lexeme ∈ body, lexeme.symbol ≠ .stop)
    (position : Nat) {e : Expr} :
    ofLexemes (body ++ [⟨.stop, position⟩]) = .ok e ↔
      Grammar.Disjunction nestingLimit (body.map Lexeme.symbol) e := by
  rw [ofLexemes_eq_ok_iff]
  constructor
  · rintro ⟨rest, hreads, hrest⟩
    obtain ⟨taken, htaken, hphrase⟩ := sound_disjunction nestingLimit hreads
    have hstop := (Grammar.faithful_disjunction nestingLimit).stop hphrase
    rwa [eq_of_append_stop htaken h hstop hrest] at hphrase
  · intro hphrase
    have hends : ∀ op, NotAt op [⟨.stop, position⟩] := by simp [NotAt]
    exact ⟨_, complete_disjunction nestingLimit hphrase hends, by simp⟩

/-- A text that has a cut is read by the grammar. -/
theorem parse_eq_ok_iff_of_cut {s : String} {lexemes : List Lexeme}
    (h : Lexeme.Cut 0 s.toList lexemes) (e : Expr) :
    parse s = .ok e ↔ Grammar.Disjunction nestingLimit (lexemes.map Lexeme.symbol) e := by
  have hstop : ∀ lexeme ∈ lexemes, lexeme.symbol ≠ .stop := by
    intro lexeme hl
    exact (h.symbols lexeme hl).1
  rw [parse, Lexeme.scan, h.scanFrom_eq]
  exact ofLexemes_append_stop hstop _

/-- The texts that are read as an expression are those over the alphabet whose lexemes are a
disjunction of the grammar, and the expression is the one that the grammar denotes. -/
theorem parse_eq_ok_iff {s : String} {e : Expr} :
    parse s = .ok e ↔ ∃ lexemes, Lexeme.Cut 0 s.toList lexemes ∧
      Grammar.Disjunction nestingLimit (lexemes.map Lexeme.symbol) e := by
  constructor
  · intro h
    cases hscan : Lexeme.scan s with
    | error fault =>
      rw [parse, hscan] at h
      cases h
    | ok lexemes =>
      obtain ⟨body, hcut, rfl⟩ := Lexeme.scanFrom_eq_ok_iff.mp hscan
      exact ⟨body, hcut, (parse_eq_ok_iff_of_cut hcut e).mp h⟩
  · rintro ⟨body, hcut, hphrase⟩
    exact (parse_eq_ok_iff_of_cut hcut e).mpr hphrase

/-- What is read is canonical. -/
theorem canonical_of_parse {s : String} {e : Expr} (h : parse s = .ok e) : e.Canonical := by
  obtain ⟨lexemes, -, hphrase⟩ := parse_eq_ok_iff.mp h
  exact (Grammar.faithful_disjunction nestingLimit).canonical hphrase

/-- A text is read exactly when its characters belong to the language and its lexemes form a
disjunction with at most 128 parentheses open at the same time. What is read is then the
expression that the grammar denotes: it is canonical, and its leaves are tokens, namely the
literals of the text from left to right. -/
theorem parse_iff_disjunction (s : String) :
    (∀ e, parse s = .ok e ↔
      (∀ c ∈ s.toList, Lexeme.InAlphabet c) ∧
        ∃ lexemes, Lexeme.Cut 0 s.toList lexemes ∧
          Grammar.Disjunction 128 (lexemes.map Lexeme.symbol) e) ∧
    ∀ e lexemes, parse s = .ok e → Lexeme.Cut 0 s.toList lexemes →
      e.Canonical ∧ (∀ token ∈ e.leaves, isToken token = true) ∧
        e.leaves = Grammar.literals (lexemes.map Lexeme.symbol) := by
  constructor
  · intro e
    rw [parse_eq_ok_iff]
    constructor
    · rintro ⟨lexemes, hcut, hphrase⟩
      exact ⟨hcut.inAlphabet, lexemes, hcut, hphrase⟩
    · rintro ⟨-, lexemes, hcut, hphrase⟩
      exact ⟨lexemes, hcut, hphrase⟩
  · intro e lexemes h hcut
    have hphrase := (parse_eq_ok_iff_of_cut hcut e).mp h
    have hleaves := (Grammar.faithful_disjunction nestingLimit).leaves hphrase
    refine ⟨canonical_of_parse h, ?_, hleaves⟩
    intro token ht
    rw [hleaves, Grammar.mem_literals] at ht
    obtain ⟨lexeme, hl, hsymbol⟩ := List.mem_map.mp ht
    exact (hcut.symbols lexeme hl).2 token hsymbol

end TokenSearch.Expr
