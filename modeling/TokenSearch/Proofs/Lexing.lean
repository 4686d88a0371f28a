import TokenSearch.Expr.Lexeme

/-!
# Cutting a text into lexemes

`Cut` says which lexemes a text consists of, without an order of decisions: blanks lie between
the lexemes, a sign is one character, and a literal is a run of token characters that no token
character follows. Scanning finds exactly this cut when all characters belong to the language.
Otherwise it reports the first one that does not.
-/

namespace TokenSearch.Lexeme

/-- The characters that the text of an expression may consist of. -/
def InAlphabet (c : Char) : Prop :=
  Text.isBlank c = true ∨ isTokenChar c = true ∨ c ∈ ['&', '|', '(', ')']

/-- The lexemes of a text that begins at a byte offset. -/
inductive Cut : Nat → List Char → List Lexeme → Prop
  | done {position : Nat} : Cut position [] []
  | blank {position : Nat} {c : Char} {cs : List Char} {lexemes : List Lexeme}
      (hc : Text.isBlank c = true) (rest : Cut (position + c.utf8Size) cs lexemes) :
      Cut position (c :: cs) lexemes
  | sign {position : Nat} {c : Char} {cs : List Char} {symbol : Symbol} {lexemes : List Lexeme}
      (hc : symbolOf? c = some symbol) (rest : Cut (position + c.utf8Size) cs lexemes) :
      Cut position (c :: cs) (⟨symbol, position⟩ :: lexemes)
  | literal {position : Nat} {run cs : List Char} {lexemes : List Lexeme} (nonempty : run ≠ [])
      (inside : ∀ c ∈ run, isTokenChar c = true) (maximal : ∀ c ∈ cs.head?, isTokenChar c = false)
      (rest : Cut (position + byteLength run) cs lexemes) :
      Cut position (run ++ cs) (⟨.literal (String.ofList run), position⟩ :: lexemes)

/-- The length in bytes adds up. -/
theorem byteLength_append (cs ds : List Char) :
    byteLength (cs ++ ds) = byteLength cs + byteLength ds := by
  induction cs with
  | nil => rw [List.nil_append, byteLength, Nat.zero_add]
  | cons c cs ih => rw [List.cons_append, byteLength, byteLength, ih, Nat.add_assoc]

/-- The signs are the connectives and the parentheses. -/
theorem exists_symbolOf?_iff {c : Char} :
    (∃ symbol, symbolOf? c = some symbol) ↔ c ∈ ['&', '|', '(', ')'] := by
  unfold symbolOf?
  split <;> simp_all

/-- No blank is a token character: each blank lies in a gap of the letters and the digits. -/
theorem isTokenChar_of_isBlank {c : Char} (h : Text.isBlank c = true) : isTokenChar c = false := by
  have hgap : ∀ r ∈ Text.blankRanges, ∀ n ∈ List.range' r.1 (r.2 + 1 - r.1),
      Text.CodeRange.covers Text.letterRanges n = false ∧
        Text.CodeRange.covers Text.decimalDigitRanges n = false := by
    decide +kernel
  obtain ⟨r, hr, hlo, hhi⟩ := Text.CodeRange.exists_mem_of_covers h
  obtain ⟨hl, hd⟩ := hgap r hr c.toNat (List.mem_range'_1.mpr ⟨hlo, by omega⟩)
  rw [isTokenChar, Text.isLetter, Text.isDecimalDigit, hl, hd, Bool.or_false]

/-- No sign is a blank or a token character. -/
theorem isBlank_isTokenChar_of_symbolOf? {c : Char} {symbol : Symbol}
    (h : symbolOf? c = some symbol) : Text.isBlank c = false ∧ isTokenChar c = false := by
  have hsign := exists_symbolOf?_iff.mp ⟨symbol, h⟩
  simp only [List.mem_cons, List.not_mem_nil, or_false] at hsign
  rcases hsign with rfl | rfl | rfl | rfl
  all_goals decide

/-- A token character is neither a blank nor a sign. -/
theorem isBlank_symbolOf?_of_isTokenChar {c : Char} (h : isTokenChar c = true) :
    Text.isBlank c = false ∧ symbolOf? c = none := by
  constructor
  · rw [← Bool.not_eq_true]
    intro hb
    exact Bool.false_ne_true ((isTokenChar_of_isBlank hb).symm.trans h)
  · rw [Option.eq_none_iff_forall_ne_some]
    intro symbol hs
    exact Bool.false_ne_true ((isBlank_isTokenChar_of_symbolOf? hs).2.symm.trans h)

/-- A blank is passed over. -/
theorem scanFrom_blank {c : Char} (hc : Text.isBlank c = true) (position : Nat)
    (rest : List Char) :
    scanFrom position (c :: rest) = scanFrom (position + c.utf8Size) rest := by
  rw [scanFrom, if_pos hc]

/-- A sign is a lexeme of one character. -/
theorem scanFrom_sign {c : Char} {symbol : Symbol} (hc : symbolOf? c = some symbol)
    (position : Nat) (rest : List Char) :
    scanFrom position (c :: rest) =
      (scanFrom (position + c.utf8Size) rest).map (⟨symbol, position⟩ :: ·) := by
  have hb := (isBlank_isTokenChar_of_symbolOf? hc).1
  rw [scanFrom, if_neg (by simp [hb])]
  simp only [hc]

/-- A run of token characters that none follows is one literal. -/
theorem scanFrom_literal {run rest : List Char} (nonempty : run ≠ [])
    (inside : ∀ c ∈ run, isTokenChar c = true) (maximal : ∀ c ∈ rest.head?, isTokenChar c = false)
    (position : Nat) :
    scanFrom position (run ++ rest) =
      (scanFrom (position + byteLength run) rest).map
        (⟨.literal (String.ofList run), position⟩ :: ·) := by
  cases run with
  | nil => exact absurd rfl nonempty
  | cons c tail =>
    obtain ⟨hc, htail⟩ := List.forall_mem_cons.mp inside
    obtain ⟨hb, hs⟩ := isBlank_symbolOf?_of_isTokenChar hc
    have hstop : rest.takeWhile isTokenChar = [] ∧ rest.dropWhile isTokenChar = rest := by
      cases rest with
      | nil => exact ⟨rfl, rfl⟩
      | cons d rest => simp [maximal d rfl]
    rw [List.cons_append, scanFrom, if_neg (by simp [hb])]
    simp only [hs, if_pos hc, List.takeWhile_append_of_pos htail, hstop.1, List.append_nil,
      List.dropWhile_append_of_pos htail, hstop.2]

/-- A character outside the language stops the scan. -/
theorem scanFrom_foreign {c : Char} (hc : ¬ InAlphabet c) (position : Nat) (rest : List Char) :
    scanFrom position (c :: rest) = .error (.invalidCharacter c position) := by
  simp only [InAlphabet, not_or, ← exists_symbolOf?_iff, not_exists,
    ← Option.eq_none_iff_forall_ne_some] at hc
  obtain ⟨hb, ht, hs⟩ := hc
  rw [scanFrom, if_neg hb]
  simp only [hs, if_neg ht]

/-- Scanning finds every cut, and closes it with a stop. -/
theorem Cut.scanFrom_eq {position : Nat} {cs : List Char} {lexemes : List Lexeme}
    (h : Cut position cs lexemes) :
    scanFrom position cs = .ok (lexemes ++ [⟨.stop, position + byteLength cs⟩]) := by
  induction h with
  | done =>
    rw [scanFrom]
    rfl
  | blank hc rest ih => rw [scanFrom_blank hc, ih, byteLength, Nat.add_assoc]
  | sign hc rest ih =>
    rw [scanFrom_sign hc, ih, byteLength, Nat.add_assoc]
    rfl
  | literal nonempty inside maximal rest ih =>
    rw [scanFrom_literal nonempty inside maximal, ih, byteLength_append, Nat.add_assoc]
    rfl

/-- A text with a cut consists of characters of the language. -/
theorem Cut.inAlphabet {position : Nat} {cs : List Char} {lexemes : List Lexeme}
    (h : Cut position cs lexemes) : ∀ c ∈ cs, InAlphabet c := by
  induction h with
  | done => exact nofun
  | blank hc _ ih => exact List.forall_mem_cons.mpr ⟨Or.inl hc, ih⟩
  | @sign position c cs symbol lexemes hc _ ih =>
    have hsign := exists_symbolOf?_iff.mp ⟨symbol, hc⟩
    exact List.forall_mem_cons.mpr ⟨Or.inr (Or.inr hsign), ih⟩
  | @literal position run cs lexemes _ inside _ _ ih =>
    have hrun : ∀ c ∈ run, InAlphabet c := by
      intro c hc
      exact Or.inr (Or.inl (inside c hc))
    exact List.forall_mem_append.mpr ⟨hrun, ih⟩

/-- The end is no lexeme of a cut, and each literal of a cut is a token. -/
theorem Cut.symbols {position : Nat} {cs : List Char} {lexemes : List Lexeme}
    (h : Cut position cs lexemes) : ∀ lexeme ∈ lexemes, lexeme.symbol ≠ .stop ∧
      ∀ token, lexeme.symbol = .literal token → isToken token = true := by
  induction h with
  | done => exact nofun
  | blank _ _ ih => exact ih
  | @sign position c cs symbol lexemes hc _ ih =>
    refine List.forall_mem_cons.mpr ⟨?_, ih⟩
    unfold symbolOf? at hc
    split at hc <;> cases hc <;> simp
  | @literal position run cs lexemes nonempty inside _ _ ih =>
    have hrun : isToken (String.ofList run) = true := by
      rw [isToken_iff, String.toList_ofList]
      exact ⟨nonempty, inside⟩
    refine List.forall_mem_cons.mpr ⟨⟨nofun, ?_⟩, ih⟩
    rintro token ⟨⟩
    exact hrun

/-- A text has no lexemes exactly when it is blank. -/
theorem Cut.eq_nil_iff {position : Nat} {cs : List Char} {lexemes : List Lexeme}
    (h : Cut position cs lexemes) : lexemes = [] ↔ ∀ c ∈ cs, Text.isBlank c = true := by
  induction h with
  | done => simp
  | blank hc _ ih => rw [ih, List.forall_mem_cons, and_iff_right hc]
  | sign hc _ _ =>
    have hb := (isBlank_isTokenChar_of_symbolOf? hc).1
    simp [hb]
  | @literal position run cs lexemes nonempty inside _ _ _ =>
    obtain ⟨c, hc⟩ := List.exists_mem_of_ne_nil run nonempty
    have hb := (isBlank_symbolOf?_of_isTokenChar (inside c hc)).1
    refine ⟨nofun, ?_⟩
    intro hblank
    rw [hblank c (List.mem_append_left cs hc)] at hb
    cases hb

/-- Every text over the alphabet has a cut. -/
theorem exists_cut {cs : List Char} (h : ∀ c ∈ cs, InAlphabet c) (position : Nat) :
    ∃ lexemes, Cut position cs lexemes := by
  fun_induction scanFrom position cs with
  | case1 position => exact ⟨[], .done⟩
  | case2 position c rest hb ih =>
    obtain ⟨lexemes, hcut⟩ := ih (List.forall_mem_cons.mp h).2
    exact ⟨lexemes, .blank hb hcut⟩
  | case3 position c rest _ symbol hs ih =>
    obtain ⟨lexemes, hcut⟩ := ih (List.forall_mem_cons.mp h).2
    exact ⟨_, .sign hs hcut⟩
  | case4 position c rest _ _ ht run ih =>
    have hsplit : c :: rest = run ++ rest.dropWhile isTokenChar := by
      rw [List.cons_append, List.takeWhile_append_dropWhile]
    have hrest := (List.dropWhile_suffix isTokenChar (l := rest)).subset
    have hinside : ∀ d ∈ run, isTokenChar d = true :=
      List.forall_mem_cons.mpr ⟨ht, List.all_eq_true.mp List.all_takeWhile⟩
    have hmaximal : ∀ d ∈ (rest.dropWhile isTokenChar).head?, isTokenChar d = false := by
      intro d hd
      have hnot := List.head?_dropWhile_not isTokenChar rest
      rw [Option.mem_def.mp hd] at hnot
      simpa using hnot
    obtain ⟨lexemes, hcut⟩ := ih fun d hd => h d (List.mem_cons_of_mem c (hrest hd))
    rw [hsplit]
    exact ⟨_, .literal (List.cons_ne_nil _ _) hinside hmaximal hcut⟩
  | case5 position c rest hb hs ht =>
    obtain hc | hc | hc := h c List.mem_cons_self
    · exact absurd hc hb
    · exact absurd hc ht
    · obtain ⟨symbol, hsymbol⟩ := exists_symbolOf?_iff.mpr hc
      rw [hs] at hsymbol
      cases hsymbol

/-- The first character outside the language is reported, with its offset. -/
theorem Cut.scanFrom_foreign {position : Nat} {before : List Char} {lexemes : List Lexeme}
    (h : Cut position before lexemes) {c : Char} (hc : ¬ InAlphabet c) (after : List Char) :
    scanFrom position (before ++ c :: after) =
      .error (.invalidCharacter c (position + byteLength before)) := by
  induction h with
  | done => exact Lexeme.scanFrom_foreign hc _ after
  | blank hb _ ih => rw [List.cons_append, scanFrom_blank hb, ih, byteLength, Nat.add_assoc]
  | sign hs _ ih =>
    rw [List.cons_append, scanFrom_sign hs, ih, byteLength, Nat.add_assoc]
    rfl
  | @literal position run cs lexemes nonempty inside maximal _ ih =>
    have hmax : ∀ d ∈ (cs ++ c :: after).head?, isTokenChar d = false := by
      cases cs with
      | nil =>
        rintro d ⟨⟩
        simp only [InAlphabet, not_or, Bool.not_eq_true] at hc
        exact hc.2.1
      | cons d cs => exact maximal
    rw [List.append_assoc, scanFrom_literal nonempty inside hmax, ih, byteLength_append,
      Nat.add_assoc]
    rfl

/-- A text with a character outside the language has a first one. -/
theorem exists_first_foreign {cs : List Char} (h : ¬ ∀ c ∈ cs, InAlphabet c) :
    ∃ before c after, cs = before ++ c :: after ∧ (∀ b ∈ before, InAlphabet b) ∧
      ¬ InAlphabet c := by
  induction cs with
  | nil => exact absurd nofun h
  | cons c cs ih =>
    by_cases hc : InAlphabet c
    · have hcs : ¬ ∀ d ∈ cs, InAlphabet d := fun hd => h (List.forall_mem_cons.mpr ⟨hc, hd⟩)
      obtain ⟨before, d, after, rfl, hbefore, hd⟩ := ih hcs
      exact ⟨c :: before, d, after, rfl, List.forall_mem_cons.mpr ⟨hc, hbefore⟩, hd⟩
    · exact ⟨[], c, cs, rfl, nofun, hc⟩

/-- The scan succeeds on exactly the texts that have a cut, and finds that cut. -/
theorem scanFrom_eq_ok_iff {position : Nat} {cs : List Char} {lexemes : List Lexeme} :
    scanFrom position cs = .ok lexemes ↔
      ∃ body, Cut position cs body ∧ lexemes = body ++ [⟨.stop, position + byteLength cs⟩] := by
  constructor
  · intro h
    by_cases hcs : ∀ c ∈ cs, InAlphabet c
    · obtain ⟨body, hcut⟩ := exists_cut hcs position
      have hscan := hcut.scanFrom_eq
      rw [h] at hscan
      exact ⟨body, hcut, Except.ok.inj hscan⟩
    · obtain ⟨before, c, after, rfl, hbefore, hc⟩ := exists_first_foreign hcs
      obtain ⟨_, hcut⟩ := exists_cut hbefore position
      rw [hcut.scanFrom_foreign hc] at h
      cases h
  · rintro ⟨body, hcut, rfl⟩
    exact hcut.scanFrom_eq

end TokenSearch.Lexeme
