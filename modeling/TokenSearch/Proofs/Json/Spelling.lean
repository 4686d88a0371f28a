import Mathlib.Data.List.Chain
import TokenSearch.Proofs.Json.Numbers

/-!
# The spelling of JSON lexemes

A lexeme has its spellings, and a text spells lexemes when their spellings stand in it one behind
the other with spaces anywhere between them. A text is read as the lexemes that it spells, whatever
stands behind it, as long as no number has another number or a name right behind it. Conversely,
the lexemes that are read from a text, up to the first malformed one, are spelled in it.
-/

namespace TokenSearch.Json

open Text (Scanned)

/-- The characters between the quotes of a string, with the pieces that they make. -/
inductive IsBody : Scanned → List Piece → Prop
  | nil : IsBody [] []
  | plain {c : Char} {text : Scanned} {pieces : List Piece} (hcontrol : ¬c < ' ')
      (hquote : c ≠ '"') (hslash : c ≠ '\\') (h : IsBody text pieces) :
      IsBody (some c :: text) (.char (some c) :: pieces)
  | unknown {text : Scanned} {pieces : List Piece} (h : IsBody text pieces) :
      IsBody (none :: text) (.char none :: pieces)
  | letter {e c : Char} {text : Scanned} {pieces : List Piece} (hletter : unescape? e = some c)
      (h : IsBody text pieces) :
      IsBody (some '\\' :: some e :: text) (.char (some c) :: pieces)
  | unit {a b c d : Option Char} {unit : Nat} {text : Scanned} {pieces : List Piece}
      (hunit : codeUnit? a b c d = some unit) (h : IsBody text pieces) :
      IsBody (some '\\' :: some 'u' :: a :: b :: c :: d :: text) (pieceOf unit :: pieces)

/-- The lexemes of a single character. -/
def signs : List (Char × Lexeme) :=
  [('[', .openArray), (']', .closeArray), ('\x7b', .openObject), ('\x7d', .closeObject),
    (',', .comma), (':', .colon)]

/-- The names and their values. -/
def names : List (String × Json) := [("null", .null), ("true", .bool true), ("false", .bool false)]

/-- The spellings of the lexemes. -/
inductive IsSpelling : Scanned → Lexeme → Prop
  | sign {c : Char} {lexeme : Lexeme} (h : (c, lexeme) ∈ signs) : IsSpelling [some c] lexeme
  | string {body : Scanned} {pieces : List Piece} (h : IsBody body pieces) :
      IsSpelling (some '"' :: (body ++ [some '"'])) (.string (joinHalves pieces))
  | name {name : String} {value : Json} (h : (name, value) ∈ names) :
      IsSpelling (name.toList.map some) (.atom value)
  | natural {text : Scanned} {n : Numeral} (h : IsMagnitude false text n) :
      IsSpelling text (.atom (.number n))
  | negative {text : Scanned} {n : Numeral} (h : IsMagnitude true text n) :
      IsSpelling (some '-' :: text) (.atom (.number n))

/-- A text spells lexemes, with spaces anywhere between them. -/
inductive Spells : Scanned → List Lexeme → Prop
  | nil : Spells [] []
  | space {c : Char} {text : Scanned} {spelled : List Lexeme} (hc : isSpace c = true)
      (h : Spells text spelled) : Spells (some c :: text) spelled
  | lexeme {spelling text : Scanned} {lexeme : Lexeme} {spelled : List Lexeme}
      (hspelling : IsSpelling spelling lexeme) (h : Spells text spelled) :
      Spells (spelling ++ text) (lexeme :: spelled)

/-- A text has nothing but spaces. -/
def AreSpaces (text : Scanned) : Prop := ∀ c ∈ text, c.any isSpace = true

section Strings

/-- The characters between the quotes are read as their pieces. -/
theorem IsBody.readPieces_eq {body : Scanned} {pieces : List Piece} (h : IsBody body pieces)
    (rest : Scanned) : readPieces (body ++ some '"' :: rest) = some (pieces, rest) := by
  induction h with
  | nil => rw [List.nil_append, readPieces]
  | @plain c text pieces hcontrol hquote hslash h ih =>
    rw [List.cons_append, readPieces, if_neg hcontrol, ih]
    all_goals simp_all
  | unknown h ih => rw [List.cons_append, readPieces, ih]
  | @letter e c text pieces hletter h ih =>
    rw [List.cons_append, List.cons_append, readPieces, hletter, ih]
    rintro _ _ _ _ _ - rfl
    cases hletter
  | unit hunit h ih =>
    simp only [List.cons_append]
    rw [readPieces, hunit, ih]

/-- The pieces that are read stand up to the closing quote. -/
theorem isBody_of_readPieces {cs rest : Scanned} {pieces : List Piece}
    (h : readPieces cs = some (pieces, rest)) :
    ∃ body, cs = body ++ some '"' :: rest ∧ IsBody body pieces := by
  fun_induction readPieces cs generalizing pieces rest with
  | case1 tail =>
    cases h
    exact ⟨[], rfl, .nil⟩
  | case2 a b c d tail unit pieces' rest' hread hunit ih =>
    cases h
    obtain ⟨body, rfl, hbody⟩ := ih hread
    exact ⟨_, rfl, .unit hunit hbody⟩
  | case4 e tail he c pieces' rest' hread hletter ih =>
    cases h
    obtain ⟨body, rfl, hbody⟩ := ih hread
    exact ⟨_, rfl, .letter hletter hbody⟩
  | case8 c tail hquote hunit hletter hslash hcontrol pieces' rest' hread ih =>
    cases h
    obtain ⟨body, rfl, hbody⟩ := ih hread
    exact ⟨_, rfl, .plain hcontrol hquote hslash hbody⟩
  | case10 tail pieces' rest' hread ih =>
    cases h
    obtain ⟨body, rfl, hbody⟩ := ih hread
    exact ⟨_, rfl, .unknown hbody⟩
  | case3 | case5 | case6 | case7 | case9 | case11 | case12 => cases h

end Strings

section Lexemes

theorem readName_append (tail : Scanned) (value : Json) (rest : Scanned) :
    readName tail value (tail ++ rest) = some (.atom value, rest) := by
  rw [readName, if_pos (List.isPrefixOf_iff_prefix.mpr (List.prefix_append tail rest)),
    List.drop_left]

theorem eq_append_of_readName {tail cs rest : Scanned} {value : Json} {lexeme : Lexeme}
    (h : readName tail value cs = some (lexeme, rest)) :
    cs = tail ++ rest ∧ lexeme = .atom value := by
  rw [readName] at h
  split at h
  · rename_i hprefix
    cases h
    exact ⟨(List.prefix_iff_eq_append.mp (List.isPrefixOf_iff_prefix.mp hprefix)).symm, rfl⟩
  · cases h

/-- A number without a sign begins with its first digit. -/
theorem readLexeme_of_isDigit {c : Char} (h : c.isDigit = true) (rest : Scanned) :
    readLexeme c rest = readMagnitude false (some c :: rest) := by
  unfold readLexeme
  split
  case h_12 => rfl
  all_goals exact absurd h (by decide)

theorem isSpace_of_isDigit {c : Char} (h : c.isDigit = true) : isSpace c = false := by
  rw [← Bool.not_eq_true]
  intro hspace
  simp only [isSpace, Bool.or_eq_true, decide_eq_true_eq] at hspace
  rcases hspace with ((rfl | rfl) | rfl) | rfl <;> cases h

/-- A character that begins a lexeme is no space, and the lexemes go on behind it. -/
theorem lexemes_cons {c : Char} {rest rest' : Scanned} {lexeme : Lexeme} (hc : isSpace c = false)
    (h : readLexeme c rest = some (lexeme, rest')) :
    lexemes (some c :: rest) = lexeme :: lexemes rest' := by
  rw [lexemes, if_neg (by simp [hc])]
  split
  · rename_i lexeme₁ rest₁ h₁
    obtain ⟨rfl, rfl⟩ := Prod.mk.inj (Option.some.inj (h.symm.trans h₁))
    rfl
  · rename_i h₁
    cases h.symm.trans h₁

/-- Nothing is read behind a character that begins no lexeme. -/
theorem lexemes_malformed {c : Char} {rest : Scanned} (hc : isSpace c = false)
    (h : readLexeme c rest = none) : lexemes (some c :: rest) = [.malformed] := by
  rw [lexemes, if_neg (by simp [hc])]
  split
  · rename_i h₁
    cases h.symm.trans h₁
  · rfl

theorem lexemes_nil : lexemes [] = [] := by rw [lexemes]

theorem lexemes_space {c : Char} (hc : isSpace c = true) (rest : Scanned) :
    lexemes (some c :: rest) = lexemes rest := by
  rw [lexemes, if_pos hc]

/-- A spelling is read as its lexeme, unless what stands behind it continues a number. -/
theorem IsSpelling.lexemes_append {spelling rest : Scanned} {lexeme : Lexeme}
    (h : IsSpelling spelling lexeme) (hrest : ∀ n, lexeme = .atom (.number n) → EndsNumber rest) :
    lexemes (spelling ++ rest) = lexeme :: lexemes rest := by
  cases h with
  | @sign c lexeme h =>
    have hall : ∀ sign ∈ signs,
        isSpace sign.1 = false ∧ readLexeme sign.1 rest = some (sign.2, rest) := by
      simp only [signs, List.forall_mem_cons]
      exact ⟨⟨rfl, rfl⟩, ⟨rfl, rfl⟩, ⟨rfl, rfl⟩, ⟨rfl, rfl⟩, ⟨rfl, rfl⟩, ⟨rfl, rfl⟩, nofun⟩
    exact lexemes_cons (hall _ h).1 (hall _ h).2
  | @string body pieces h =>
    have hread : readLexeme '"' (body ++ some '"' :: rest) =
        some (.string (joinHalves pieces), rest) := by
      simp only [readLexeme, h.readPieces_eq]
    rw [List.cons_append, List.append_assoc]
    exact lexemes_cons rfl hread
  | @name name value h =>
    have hall : ∀ entry ∈ names, lexemes (entry.1.toList.map some ++ rest) =
        .atom entry.2 :: lexemes rest := by
      simp only [names, List.forall_mem_cons]
      exact ⟨lexemes_cons rfl (readName_append _ _ rest),
        lexemes_cons rfl (readName_append _ _ rest),
        lexemes_cons rfl (readName_append _ _ rest), nofun⟩
    exact hall _ h
  | @natural text n h =>
    have hread := h.readMagnitude_eq (hrest n rfl)
    obtain ⟨c, tail, rfl, hc⟩ := h.exists_cons
    exact lexemes_cons (isSpace_of_isDigit hc) ((readLexeme_of_isDigit hc _).trans hread)
  | @negative text n h =>
    exact lexemes_cons rfl (h.readMagnitude_eq (hrest n rfl))

/-- What is read as a lexeme is a spelling of it. -/
theorem isSpelling_of_readLexeme {c : Char} {cs rest : Scanned} {lexeme : Lexeme}
    (h : readLexeme c cs = some (lexeme, rest)) :
    ∃ spelling, some c :: cs = spelling ++ rest ∧ IsSpelling spelling lexeme := by
  unfold readLexeme at h
  split at h
  case h_7 =>
    split at h
    · rename_i pieces behind hread
      cases h
      obtain ⟨body, rfl, hbody⟩ := isBody_of_readPieces hread
      exact ⟨some '"' :: (body ++ [some '"']), by simp, .string hbody⟩
    · cases h
  case h_8 =>
    obtain ⟨rfl, rfl⟩ := eq_append_of_readName h
    exact ⟨_, rfl, @IsSpelling.name "null" _ (by simp [names])⟩
  case h_9 =>
    obtain ⟨rfl, rfl⟩ := eq_append_of_readName h
    exact ⟨_, rfl, @IsSpelling.name "true" _ (by simp [names])⟩
  case h_10 =>
    obtain ⟨rfl, rfl⟩ := eq_append_of_readName h
    exact ⟨_, rfl, @IsSpelling.name "false" _ (by simp [names])⟩
  case h_11 =>
    obtain ⟨text, n, rfl, rfl, hmagnitude⟩ := isMagnitude_of_readMagnitude h
    exact ⟨_, rfl, .negative hmagnitude⟩
  case h_12 =>
    obtain ⟨text, n, htext, rfl, hmagnitude⟩ := isMagnitude_of_readMagnitude h
    exact ⟨text, htext, .natural hmagnitude⟩
  all_goals
    cases h
    exact ⟨_, rfl, .sign (by simp [signs])⟩

end Lexemes

section Texts

/-- Two lexemes can stand side by side without a space. -/
def Apart (lexeme next : Lexeme) : Prop :=
  ∀ n v, lexeme = .atom (.number n) → next ≠ .atom v

/-- Neither a space nor a lexeme that is no atom continues a number. -/
theorem Spells.endsNumber {text rest : Scanned} {spelled : List Lexeme} (h : Spells text spelled)
    (hspelled : ∀ v, spelled.head? ≠ some (.atom v)) (hrest : spelled = [] → EndsNumber rest) :
    EndsNumber (text ++ rest) := by
  cases h with
  | nil => exact hrest rfl
  | space hc =>
    rintro c ⟨⟩
    simp only [isSpace, Bool.or_eq_true, decide_eq_true_eq] at hc
    rcases hc with ((rfl | rfl) | rfl) | rfl <;> decide
  | lexeme hspelling =>
    cases hspelling with
    | @sign sign _ h =>
      rintro c ⟨⟩
      have hall : ∀ sign ∈ signs,
          sign.1.isDigit = false ∧ sign.1 ≠ '.' ∧ sign.1 ≠ 'e' ∧ sign.1 ≠ 'E' := by
        simp [signs]
      exact hall _ h
    | string =>
      rintro c ⟨⟩
      decide
    | name | natural | negative => exact absurd rfl (hspelled _)

/-- A text is read as the lexemes that it spells. What follows a number is a space, a lexeme that is
no atom, or the rest. -/
theorem Spells.lexemes_append {text rest : Scanned} {spelled : List Lexeme}
    (h : Spells text spelled) (hapart : spelled.IsChain Apart)
    (hrest : ∀ n, spelled.getLast? = some (.atom (.number n)) → EndsNumber rest) :
    lexemes (text ++ rest) = spelled ++ lexemes rest := by
  induction h with
  | nil => rfl
  | space hc h ih => rw [List.cons_append, lexemes_space hc, ih hapart hrest]
  | @lexeme spelling text lexeme spelled hspelling h ih =>
    obtain ⟨hnext, hapart⟩ := List.isChain_cons.mp hapart
    rw [List.append_assoc, hspelling.lexemes_append, ih hapart, List.cons_append]
    · intro n hn
      refine hrest n ?_
      rw [List.getLast?_cons, hn]
      rfl
    · rintro n rfl
      refine h.endsNumber (fun v hv => hnext _ hv n v rfl rfl) ?_
      rintro rfl
      exact hrest n rfl

theorem IsSpelling.spells {spelling : Scanned} {lexeme : Lexeme} (h : IsSpelling spelling lexeme) :
    Spells spelling [lexeme] := by
  simpa using Spells.lexeme h .nil

theorem Spells.append {text behind : Scanned} {spelled further : List Lexeme}
    (h : Spells text spelled) (hbehind : Spells behind further) :
    Spells (text ++ behind) (spelled ++ further) := by
  induction h with
  | nil => exact hbehind
  | space hc _ ih => exact .space hc ih
  | lexeme hspelling _ ih =>
    rw [List.append_assoc]
    exact .lexeme hspelling ih

theorem AreSpaces.spells {text : Scanned} (h : AreSpaces text) : Spells text [] := by
  induction text with
  | nil => exact .nil
  | cons c text ih =>
    obtain ⟨hc, htext⟩ := List.forall_mem_cons.mp h
    obtain ⟨c, rfl, hspace⟩ := (Option.any_eq_true _ _).mp hc
    exact .space hspace (ih htext)

/-- A text without lexemes has nothing but spaces. -/
theorem areSpaces_of_lexemes_eq_nil {cs : Scanned} (h : lexemes cs = []) : AreSpaces cs := by
  induction cs using lexemes.induct with
  | case1 => exact nofun
  | case2 cs =>
    rw [lexemes] at h
    cases h
  | case3 c cs hc ih =>
    rw [lexemes_space hc] at h
    exact List.forall_mem_cons.mpr ⟨hc, ih h⟩
  | case4 c cs hc lexeme rest' hread ih =>
    rw [lexemes_cons (by simpa using hc) hread] at h
    cases h
  | case5 c cs hc hread =>
    rw [lexemes_malformed (by simpa using hc) hread] at h
    cases h

/-- Lexemes that were read are spelled in the text, in front of those behind them. -/
theorem exists_spells_of_lexemes {cs : Scanned} {spelled rest : List Lexeme}
    (h : lexemes cs = spelled ++ rest) (hspelled : .malformed ∉ spelled) :
    ∃ text behind, cs = text ++ behind ∧ Spells text spelled ∧ lexemes behind = rest := by
  induction cs using lexemes.induct generalizing spelled with
  | case1 =>
    obtain ⟨rfl, rfl⟩ := List.append_eq_nil_iff.mp (h.symm.trans lexemes_nil)
    exact ⟨[], [], rfl, .nil, lexemes_nil⟩
  | case2 cs =>
    cases spelled with
    | nil => exact ⟨[], _, rfl, .nil, h⟩
    | cons lexeme spelled =>
      rw [lexemes] at h
      obtain ⟨rfl, -⟩ := List.cons.inj h
      exact absurd List.mem_cons_self hspelled
  | case3 c cs hc ih =>
    rw [lexemes_space hc] at h
    obtain ⟨text, behind, rfl, htext, hbehind⟩ := ih h hspelled
    exact ⟨some c :: text, behind, rfl, .space hc htext, hbehind⟩
  | case4 c cs hc lexeme rest' hread ih =>
    cases spelled with
    | nil => exact ⟨[], _, rfl, .nil, h⟩
    | cons first spelled =>
      rw [lexemes_cons (by simpa using hc) hread] at h
      obtain ⟨rfl, htail⟩ := List.cons.inj h
      obtain ⟨text, behind, rfl, htext, hbehind⟩ := ih htail (List.not_mem_of_not_mem_cons hspelled)
      obtain ⟨spelling, hcs, hspelling⟩ := isSpelling_of_readLexeme hread
      exact ⟨spelling ++ text, behind, by rw [hcs, List.append_assoc],
        .lexeme hspelling htext, hbehind⟩
  | case5 c cs hc hread =>
    cases spelled with
    | nil => exact ⟨[], _, rfl, .nil, h⟩
    | cons lexeme spelled =>
      rw [lexemes_malformed (by simpa using hc) hread] at h
      obtain ⟨rfl, -⟩ := List.cons.inj h
      exact absurd List.mem_cons_self hspelled

end Texts

end TokenSearch.Json
