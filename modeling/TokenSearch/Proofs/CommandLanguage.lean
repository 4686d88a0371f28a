import Mathlib.Data.Nat.Digits.Defs
import TokenSearch.Proofs.Commands
import TokenSearch.Proofs.IndexLine

/-!
# The language of command lines

What a line asks for is said without the order in which it is checked. A text has words when it
consists of them and of blanks between them, a numeral is a sign or none in front of digits, and the
words behind `index` describe a document or lack something: an id before tokens, and of the words
that are no tokens the first. Every line denotes one result in this language, and reading it finds
this result. So the line that spells out a document, with any blanks between its words and any line
end behind them, is read as this document.
-/

namespace TokenSearch

namespace Text

/-- A text has some words when it consists of them, in their order, and of blanks, with at least one
blank between any two words. -/
inductive HasWords : List Char → List String → Prop
  | blanks {cs : List Char} (h : ∀ c ∈ cs, isBlank c = true) : HasWords cs []
  | word {gap rest : List Char} {w : String} {ws : List String}
      (hgap : ∀ c ∈ gap, isBlank c = true) (hw : IsWord w)
      (hend : ∀ c ∈ rest.head?, isBlank c = true) (further : HasWords rest ws) :
      HasWords (gap ++ w.toList ++ rest) (w :: ws)

/-- Blanks in front make no words. -/
theorem words_blanks_append {blanks : List Char} (h : ∀ c ∈ blanks, isBlank c = true)
    (cs : List Char) : words (blanks ++ cs) = words cs := by
  induction blanks with
  | nil => rfl
  | cons c blanks ih =>
    obtain ⟨hc, hblanks⟩ := List.forall_mem_cons.mp h
    exact (words_append_cons hc [] (blanks ++ cs)).trans (ih hblanks)

/-- A word that no other character prolongs comes before the words of the rest. -/
theorem IsWord.words_append {w : String} (hw : IsWord w) {rest : List Char}
    (hend : ∀ c ∈ rest.head?, isBlank c = true) :
    words (w.toList ++ rest) = w.toList :: words rest := by
  cases rest with
  | nil =>
    rw [List.append_nil, hw.words_eq]
    rfl
  | cons c rest =>
    have hc : isBlank c = true := hend c rfl
    have hfront : words (c :: rest) = words rest := words_append_cons hc [] rest
    rw [words_append_cons hc, hw.words_eq, hfront]
    rfl

/-- The words that a text has are found. -/
theorem HasWords.words_eq {cs : List Char} {ws : List String} (h : HasWords cs ws) :
    (words cs).map String.ofList = ws := by
  induction h with
  | @blanks cs h =>
    have hnone := words_blanks_append h []
    rw [List.append_nil] at hnone
    rw [hnone]
    rfl
  | word hgap hw hend _ ih =>
    rw [List.append_assoc, words_blanks_append hgap, hw.words_append hend, List.map_cons, ih,
      String.ofList_toList]

/-- A blank in front is part of the first gap. -/
theorem HasWords.cons_blank {c : Char} (hc : isBlank c = true) {cs : List Char} {ws : List String}
    (h : HasWords cs ws) : HasWords (c :: cs) ws := by
  cases h with
  | blanks h => exact .blanks (List.forall_mem_cons.mpr ⟨hc, h⟩)
  | @word gap rest w ws hgap hw hend further =>
    exact .word (List.forall_mem_cons.mpr ⟨hc, hgap⟩) hw hend further

/-- Characters other than blanks are a word when a gap or nothing stands behind. -/
theorem HasWords.exists_word {c : Char} (hc : isBlank c = false) (cs : List Char)
    (hcs : ∀ d ∈ cs, isBlank d = false) {rest : List Char}
    (hend : ∀ d ∈ rest.head?, isBlank d = true) {ws : List String} (h : HasWords rest ws) :
    ∃ ws, HasWords (c :: cs ++ rest) ws := by
  have hlist : (String.ofList (c :: cs)).toList = c :: cs := String.toList_ofList
  have hword : IsWord (String.ofList (c :: cs)) := by
    rw [IsWord, hlist]
    exact ⟨List.cons_ne_nil _ _, List.forall_mem_cons.mpr ⟨hc, hcs⟩⟩
  have hwords : HasWords ([] ++ (String.ofList (c :: cs)).toList ++ rest)
      (String.ofList (c :: cs) :: ws) := .word nofun hword hend h
  rw [hlist] at hwords
  exact ⟨_, hwords⟩

/-- Another character in front prolongs the first word if no gap stands before it, and is a word of
its own otherwise. -/
theorem HasWords.exists_cons {c : Char} (hc : isBlank c = false) {cs : List Char}
    {ws : List String} (h : HasWords cs ws) : ∃ ws, HasWords (c :: cs) ws := by
  cases h with
  | blanks h =>
    exact exists_word hc [] nofun (fun d hd => h d (List.mem_of_mem_head? hd)) (.blanks h)
  | @word gap rest w ws hgap hw hend further =>
    cases gap with
    | nil => exact exists_word hc w.toList hw.2 hend further
    | cons d gap =>
      have hd : isBlank d = true := hgap d List.mem_cons_self
      exact exists_word hc [] nofun (by simpa using hd) (.word hgap hw hend further)

theorem exists_hasWords (cs : List Char) : ∃ ws, HasWords cs ws := by
  induction cs with
  | nil => exact ⟨[], .blanks nofun⟩
  | cons c cs ih =>
    obtain ⟨ws, h⟩ := ih
    cases hc : isBlank c with
    | true => exact ⟨ws, h.cons_blank hc⟩
    | false => exact h.exists_cons hc

/-- Gaps and words in turn. -/
def spell (pieces : List (List Char × String)) : List Char :=
  pieces.flatMap fun piece => piece.1 ++ piece.2.toList

section Spell

variable {pieces : List (List Char × String)} {blanks : List Char}
  (hpieces : ∀ piece ∈ pieces,
    piece.1 ≠ [] ∧ (∀ c ∈ piece.1, isBlank c = true) ∧ IsWord piece.2)
  (hblanks : ∀ c ∈ blanks, isBlank c = true)
include hpieces hblanks

/-- A text that is spelled with gaps starts with one. -/
theorem isBlank_head?_spell : ∀ c ∈ (spell pieces ++ blanks).head?, isBlank c = true := by
  cases pieces with
  | nil => exact fun c hc => hblanks c (List.mem_of_mem_head? hc)
  | cons piece pieces =>
    obtain ⟨gap, word⟩ := piece
    obtain ⟨hne, hgap, -⟩ := hpieces (gap, word) List.mem_cons_self
    obtain ⟨d, gap, rfl⟩ := List.exists_cons_of_ne_nil hne
    simpa [spell] using hgap d List.mem_cons_self

/-- A text has the words that it is spelled of, whatever blanks stand behind. -/
theorem hasWords_spell : HasWords (spell pieces ++ blanks) (pieces.map Prod.snd) := by
  induction pieces with
  | nil => exact .blanks hblanks
  | cons piece pieces ih =>
    obtain ⟨⟨-, hgap, hword⟩, hfurther⟩ := List.forall_mem_cons.mp hpieces
    rw [spell, List.flatMap_cons, ← spell, List.append_assoc, List.map_cons]
    exact .word hgap hword (isBlank_head?_spell hfurther hblanks) (ih hfurther)

end Spell

/-- A token has no blanks. -/
theorem isWord_of_isToken {token : String} (h : isToken token = true) : IsWord token := by
  obtain ⟨hne, hinside⟩ := isToken_iff.mp h
  exact ⟨hne, fun c hc => (Lexeme.isBlank_symbolOf?_of_isTokenChar (hinside c hc)).1⟩

namespace Decimal

/-- One or more ASCII digits. -/
def IsDigits (cs : List Char) : Prop := cs ≠ [] ∧ ∀ c ∈ cs, c.isDigit = true

/-- The value of digits in base ten, the first one most significant. -/
def valueOf (digits : List Char) : Nat :=
  Nat.ofDigits 10 (digits.map fun c => c.toNat - '0'.toNat).reverse

/-- An optional sign and digits, and the value of both. -/
inductive Numeral : List Char → Int → Prop
  | unsigned {digits : List Char} (h : IsDigits digits) : Numeral digits (valueOf digits)
  | plus {digits : List Char} (h : IsDigits digits) : Numeral ('+' :: digits) (valueOf digits)
  | minus {digits : List Char} (h : IsDigits digits) : Numeral ('-' :: digits) (-valueOf digits)

/-- Digits are read as their value, and nothing else is. -/
theorem natural?_eq_some_iff {cs : List Char} {n : Nat} :
    natural? cs = some n ↔ IsDigits cs ∧ n = valueOf cs := by
  have hvalue : Nat.ofDigitChars 10 cs 0 = valueOf cs := by
    rw [valueOf, Nat.ofDigits_eq_foldr, List.foldr_reverse, List.foldl_map, Nat.ofDigitChars]
    simp only [Nat.cast_id, Nat.add_comm]
  rw [natural?, hvalue, Option.ite_none_right_eq_some, Bool.and_eq_true, Bool.not_eq_true',
    List.isEmpty_eq_false_iff, List.all_eq_true, Option.some.injEq, IsDigits,
    @eq_comm Nat (valueOf cs)]

theorem map_natural?_eq_some_iff {cs : List Char} {sign : Nat → Int} {n : Int} :
    (natural? cs).map sign = some n ↔ IsDigits cs ∧ n = sign (valueOf cs) := by
  simp only [Option.map_eq_some_iff, natural?_eq_some_iff, and_assoc, exists_and_left,
    exists_eq_left, @eq_comm Int _ n]

/-- Numerals are read as their values, and nothing else is. -/
theorem signed?_eq_some_iff {cs : List Char} {n : Int} : signed? cs = some n ↔ Numeral cs n := by
  constructor
  · intro h
    unfold signed? at h
    split at h
    · obtain ⟨hdigits, rfl⟩ := map_natural?_eq_some_iff.mp h
      exact .minus hdigits
    · obtain ⟨hdigits, rfl⟩ := map_natural?_eq_some_iff.mp h
      exact .plus hdigits
    · obtain ⟨hdigits, rfl⟩ := map_natural?_eq_some_iff.mp h
      exact .unsigned hdigits
  · rintro (hdigits | hdigits | hdigits)
    · obtain ⟨c, cs, rfl⟩ := List.exists_cons_of_ne_nil hdigits.1
      rw [signed?_of_isDigit (hdigits.2 c List.mem_cons_self)]
      exact map_natural?_eq_some_iff.mpr ⟨hdigits, rfl⟩
    · exact map_natural?_eq_some_iff.mpr ⟨hdigits, rfl⟩
    · exact map_natural?_eq_some_iff.mpr ⟨hdigits, rfl⟩

end Decimal

end Text

open TokenSearch.Text (HasWords spell)
open TokenSearch.Text.Decimal (Numeral signed?_eq_some_iff)

/-- A word stands for an id when it is a numeral of its value. -/
theorem DocId.ofText?_eq_some_iff {s : String} {id : DocId} :
    ofText? s = some id ↔ Numeral s.toList id.toInt := by
  simp only [ofText?, Option.bind_eq_some_iff, ofInt?_eq_some_iff, signed?_eq_some_iff,
    exists_eq_right']

/-- A word stands for no id when it is no numeral of a value in the range. -/
theorem DocId.ofText?_eq_none_iff {s : String} :
    ofText? s = none ↔ ∀ n, Numeral s.toList n → ¬(-2147483648 ≤ n ∧ n ≤ 2147483647) := by
  rw [ofText?, Option.bind_eq_none_iff]
  refine forall_congr' fun n => ?_
  rw [signed?_eq_some_iff, ofInt?]
  simp

namespace Command

/-- The document that some words describe, or what is wrong with them. -/
inductive Describes : List String → Except DocumentFault Document → Prop
  | missingId : Describes [] (.error .missingId)
  | invalidId {word : String} {words : List String}
      (h : ∀ n, Numeral word.toList n → ¬(-2147483648 ≤ n ∧ n ≤ 2147483647)) :
      Describes (word :: words) (.error (.invalidId word))
  | notAlphanumeric {word bad : String} {before after : List String} {id : DocId}
      (hid : Numeral word.toList id.toInt) (hbefore : ∀ earlier ∈ before, isToken earlier = true)
      (hbad : isToken bad = false) :
      Describes (word :: (before ++ bad :: after)) (.error (.notAlphanumeric bad))
  | missingTokens {word : String} {id : DocId} (hid : Numeral word.toList id.toInt) :
      Describes [word] (.error .missingTokens)
  | document {word : String} {tokens : List String} {id : DocId}
      (hid : Numeral word.toList id.toInt) (nonempty : tokens ≠ [])
      (htokens : ∀ token ∈ tokens, isToken token = true) :
      Describes (word :: tokens) (.ok ⟨id, tokens⟩)

/-- What a command line denotes when its line end is dropped. -/
inductive Denotes : List Char → Except CommandFault Command → Prop
  | query (expression : String) :
      Denotes ("query ".toList ++ expression.toList) (.ok (.query expression))
  | index {arguments : List Char} {words : List String} {document : Document}
      (hwords : HasWords arguments words) (h : Describes words (.ok document)) :
      Denotes ("index ".toList ++ arguments) (.ok (.index document))
  | faulty {arguments : List Char} {words : List String} {fault : DocumentFault}
      (hwords : HasWords arguments words) (h : Describes words (.error fault)) :
      Denotes ("index ".toList ++ arguments) (.error (.document fault))
  | unknown {body : List Char} (hindex : ¬"index ".toList <+: body)
      (hquery : ¬"query ".toList <+: body) : Denotes body (.error .unknown)

/-- With an id in front, words describe a document when they are tokens. -/
theorem documentOf_cons {word : String} {id : DocId} (hid : Numeral word.toList id.toInt)
    (words : List String) :
    documentOf (word :: words) = (checkTokens words).map fun tokens => ⟨id, tokens⟩ := by
  rw [documentOf, checkId, DocId.ofText?_eq_some_iff.mpr hid]
  cases checkTokens words <;> rfl

/-- What words describe is found. -/
theorem Describes.documentOf_eq {words : List String} {result : Except DocumentFault Document}
    (h : Describes words result) : documentOf words = result := by
  cases h with
  | missingId => rfl
  | invalidId h =>
    rw [documentOf, checkId, DocId.ofText?_eq_none_iff.mpr h]
    rfl
  | notAlphanumeric hid hbefore hbad =>
    rw [documentOf_cons hid, checkTokens_of_first hbefore hbad]
    rfl
  | missingTokens hid =>
    rw [documentOf_cons hid]
    rfl
  | document hid nonempty htokens =>
    rw [documentOf_cons hid, checkTokens_eq_ok_iff.mpr ⟨rfl, nonempty, htokens⟩]
    rfl

theorem exists_describes (words : List String) : ∃ result, Describes words result := by
  cases words with
  | nil => exact ⟨_, .missingId⟩
  | cons word words =>
    cases hid : DocId.ofText? word with
    | none => exact ⟨_, .invalidId (DocId.ofText?_eq_none_iff.mp hid)⟩
    | some id =>
      have hid := DocId.ofText?_eq_some_iff.mp hid
      cases hfind : words.find? (!isToken ·) with
      | some bad =>
        obtain ⟨hbad, before, after, rfl, hbefore⟩ := List.find?_eq_some_iff_append.mp hfind
        exact ⟨_, .notAlphanumeric hid (by simpa using hbefore) (by simpa using hbad)⟩
      | none =>
        cases words with
        | nil => exact ⟨_, .missingTokens hid⟩
        | cons token tokens =>
          have htokens : ∀ word ∈ token :: tokens, isToken word = true := by
            simpa using List.find?_eq_none.mp hfind
          exact ⟨_, .document hid (List.cons_ne_nil _ _) htokens⟩

/-- What the body of a line denotes is found. -/
theorem Denotes.parse_eq {line : String} {body : List Char}
    {result : Except CommandFault Command} (h : Denotes body result)
    (hbody : dropLineEnd line.toList = body) : parse line = result := by
  have hfound : ∀ keyword rest : List Char, keyword.isPrefixOf? (keyword ++ rest) = some rest :=
    fun keyword rest => List.isPrefixOf?_eq_some_iff_append_eq.mpr rfl
  have hnone : ∀ {keyword : List Char}, ¬keyword <+: body → keyword.isPrefixOf? body = none := by
    intro keyword hkeyword
    rw [Option.eq_none_iff_forall_ne_some]
    exact fun rest hrest =>
      hkeyword ⟨rest, List.isPrefixOf?_eq_some_iff_append_eq.mp hrest⟩
  cases h with
  | query expression =>
    have hindex : "index ".toList.isPrefixOf? ("query ".toList ++ expression.toList) = none := rfl
    simp only [parse, hbody, hindex, hfound, String.ofList_toList]
  | index hwords h => simp only [parse, hbody, hfound, hwords.words_eq, h.documentOf_eq]
  | faulty hwords h => simp only [parse, hbody, hfound, hwords.words_eq, h.documentOf_eq]
  | unknown hindex hquery => simp only [parse, hbody, hnone hindex, hnone hquery]

theorem exists_denotes (body : List Char) : ∃ result, Denotes body result := by
  by_cases hindex : "index ".toList <+: body
  · obtain ⟨arguments, rfl⟩ := hindex
    obtain ⟨words, hwords⟩ := Text.exists_hasWords arguments
    obtain ⟨result, hresult⟩ := exists_describes words
    cases result with
    | ok document => exact ⟨_, .index hwords hresult⟩
    | error fault => exact ⟨_, .faulty hwords hresult⟩
  · by_cases hquery : "query ".toList <+: body
    · obtain ⟨expression, rfl⟩ := hquery
      have hexpression : (String.ofList expression).toList = expression := String.toList_ofList
      have h := Denotes.query (String.ofList expression)
      rw [hexpression] at h
      exact ⟨_, h⟩
    · exact ⟨_, .unknown hindex hquery⟩

/-- A line has a body when it is the body and then carriage returns and line feeds, in none of which
the body ends. -/
structure HasBody (line body : List Char) : Prop where
  lineEnd : ∃ lineEnd, line = body ++ lineEnd ∧ ∀ c ∈ lineEnd, c = '\r' ∨ c = '\n'
  last : ∀ c ∈ body.getLast?, c ≠ '\r' ∧ c ≠ '\n'

/-- Every line has one body, which is left without the line end. -/
theorem hasBody_iff {line body : List Char} : HasBody line body ↔ dropLineEnd line = body := by
  constructor
  · rintro ⟨⟨lineEnd, rfl, hends⟩, hlast⟩
    rw [← List.head?_reverse] at hlast
    have hkept : (body.reverse.dropWhile fun c => c = '\r' || c = '\n') = body.reverse := by
      cases hbody : body.reverse with
      | nil => rfl
      | cons c cs =>
        have hc := hlast c (by simp [hbody])
        exact List.dropWhile_cons_of_neg (by simpa using hc)
    rw [dropLineEnd, List.reverse_append, List.dropWhile_append_of_pos (by simpa using hends),
      hkept, List.reverse_reverse]
  · rintro rfl
    refine ⟨exists_lineEnd line, fun c hc => ?_⟩
    rw [dropLineEnd, List.getLast?_reverse] at hc
    have hlast := List.head?_dropWhile_not (fun c => c = '\r' || c = '\n') line.reverse
    rw [hc] at hlast
    simpa using hlast

/-- A line has this result just if its body denotes it. So an id and tokens are read as their
document, with any blanks between the words and any line end. -/
theorem parse_eq_iff_denotes :
    (∀ (line : String) (result : Except CommandFault Command),
      parse line = result ↔ ∃ body, HasBody line.toList body ∧ Denotes body result) ∧
    (∀ (id : DocId) (front : List Char) (spaced : List (List Char × Token)) (lineEnd : List Char),
      (∀ c ∈ front, Text.isBlank c = true) → spaced ≠ [] →
      (∀ pair ∈ spaced, pair.1 ≠ [] ∧ (∀ c ∈ pair.1, Text.isBlank c = true) ∧
        isToken pair.2 = true) →
      (∀ c ∈ lineEnd, c = '\r' ∨ c = '\n') →
      parse ("index " ++ String.ofList (front ++ id.text.toList ++ spell spaced ++ lineEnd)) =
        .ok (.index ⟨id, spaced.map Prod.snd⟩)) := by
  constructor
  · intro line result
    constructor
    · rintro rfl
      obtain ⟨result, hresult⟩ := exists_denotes (dropLineEnd line.toList)
      rw [hresult.parse_eq rfl]
      exact ⟨_, hasBody_iff.mpr rfl, hresult⟩
    · rintro ⟨body, hbody, hresult⟩
      exact hresult.parse_eq (hasBody_iff.mp hbody)
  · intro id front spaced lineEnd hfront hne hspaced hends
    have hpieces : ∀ pair ∈ spaced,
        pair.1 ≠ [] ∧ (∀ c ∈ pair.1, Text.isBlank c = true) ∧ Text.IsWord pair.2 :=
      fun pair hpair => ⟨(hspaced pair hpair).1, (hspaced pair hpair).2.1,
        Text.isWord_of_isToken (hspaced pair hpair).2.2⟩
    have hblanks : ∀ c ∈ lineEnd, Text.isBlank c = true :=
      fun c hc => isBlank_of_lineEnd (hends c hc)
    have htokens : ∀ token ∈ spaced.map Prod.snd, isToken token = true :=
      List.forall_mem_map.mpr fun pair hpair => (hspaced pair hpair).2.2
    have hid : Numeral id.text.toList id.toInt :=
      DocId.ofText?_eq_some_iff.mp (DocId.ofText?_text id)
    have hwords : HasWords (front ++ id.text.toList ++ (spell spaced ++ lineEnd))
        (id.text :: spaced.map Prod.snd) :=
      .word hfront (Text.Decimal.isWord_signed id.toInt) (Text.isBlank_head?_spell hpieces hblanks)
        (Text.hasWords_spell hpieces hblanks)
    rw [parse_index, String.toList_ofList, List.append_assoc _ _ lineEnd, hwords.words_eq,
      (Describes.document hid (by simpa using hne) htokens).documentOf_eq]

/-- The least id, with a tab and a no-break space before it, and wide gaps. -/
theorem parse_eq_iff_denotes_least :
    let spaced : List (List Char × Token) := [(['\u3000'], "Köln"), ([' ', '\n'], "42")]
    (spaced ≠ [] ∧ ∀ pair ∈ spaced,
      pair.1 ≠ [] ∧ (∀ c ∈ pair.1, Text.isBlank c = true) ∧ isToken pair.2 = true) ∧
      parse "index \t\u00a0-2147483648\u3000Köln \n42\r\n" =
        .ok (.index ⟨-2147483648, ["Köln", "42"]⟩) := by
  intro spaced
  have hspaced : ∀ pair ∈ spaced,
      pair.1 ≠ [] ∧ (∀ c ∈ pair.1, Text.isBlank c = true) ∧ isToken pair.2 = true := by
    simp only [spaced, List.forall_mem_cons, List.not_mem_nil, false_imp_iff, implies_true,
      and_true]
    decide +kernel
  have hfront : ∀ c ∈ ['\t', '\u00a0'], Text.isBlank c = true := List.all_eq_true.mp rfl
  have hline : "index \t\u00a0-2147483648\u3000Köln \n42\r\n" =
      "index " ++ String.ofList (['\t', '\u00a0'] ++ (DocId.text (-2147483648)).toList ++
        spell spaced ++ ['\r', '\n']) := by
    decide +kernel
  rw [hline]
  exact ⟨⟨List.cons_ne_nil _ _, hspaced⟩, parse_eq_iff_denotes.2 (-2147483648) ['\t', '\u00a0']
    spaced ['\r', '\n'] hfront (List.cons_ne_nil _ _) hspaced (by simp)⟩

end Command

end TokenSearch
