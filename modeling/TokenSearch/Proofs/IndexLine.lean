import TokenSearch.Proofs.TrailingBlanks

/-!
# Command lines that index

A line with the keyword for it describes a document by its words, wherever the blanks between them
and the line end stand. An id is written without blanks and read back as it was, so the line that
gives an id and some words describes the document of just these: what is left to check are the
words.
-/

namespace TokenSearch

/-- A digit is no blank: the digits lie between the second and the third range of blanks. -/
theorem Text.isBlank_of_isDigit {c : Char} (h : c.isDigit = true) : isBlank c = false := by
  have hrange : 48 ≤ c.toNat ∧ c.toNat ≤ 57 := by
    simpa [Char.isDigit, UInt32.le_iff_toNat_le] using h
  rw [isBlank, blankRanges, CodeRange.covers, if_neg (by omega), if_neg (by omega),
    CodeRange.covers, if_neg (by omega), if_neg (by omega), CodeRange.covers, if_pos (by omega)]

/-- The decimal form of a number is a word. -/
theorem Text.Decimal.isWord_signed (n : Int) : IsWord (signed n) := by
  refine ⟨toList_signed_ne_nil n, fun c hc => ?_⟩
  rcases eq_minus_or_isDigit_of_mem_signed hc with rfl | hdigit
  · rfl
  · exact isBlank_of_isDigit hdigit

namespace Command

/-- The line end of a line has no words. -/
theorem words_dropLineEnd (cs : List Char) : Text.words (dropLineEnd cs) = Text.words cs := by
  obtain ⟨lineEnd, hsplit, hends⟩ := exists_lineEnd cs
  have hblanks : ∀ c ∈ lineEnd, Text.isBlank c = true := fun c hc => isBlank_of_lineEnd (hends c hc)
  rw [← Text.words_append_blanks (dropLineEnd cs) hblanks, ← hsplit]

/-- A line with the keyword for it asks for the document that the words behind describe. -/
theorem parse_index (arguments : String) :
    parse ("index " ++ arguments) =
      match documentOf ((Text.words arguments.toList).map String.ofList) with
      | .ok document => .ok (.index document)
      | .error fault => .error (.document fault) := by
  have hline : dropLineEnd ("index " ++ arguments).toList =
      "index ".toList ++ dropLineEnd arguments.toList := by
    rw [String.toList_append, dropLineEnd_append rfl]
  have hindex : "index ".toList.isPrefixOf? ("index ".toList ++ dropLineEnd arguments.toList) =
      some (dropLineEnd arguments.toList) := rfl
  cases hdocument : documentOf ((Text.words arguments.toList).map String.ofList) with
  | error fault => simp only [parse, hline, hindex, words_dropLineEnd, hdocument]
  | ok document => simp only [parse, hline, hindex, words_dropLineEnd, hdocument]

/-- The line that gives an id and words, with spaces between them. -/
def indexLine (id : DocId) (words : List String) : String :=
  "index " ++ (id.text ++ " " ++ " ".intercalate words)

/-- The words of the line are the id and the words. -/
theorem words_arguments {words : List String} (h : ∀ word ∈ words, Text.IsWord word)
    (id : DocId) :
    (Text.words (id.text ++ " " ++ " ".intercalate words).toList).map String.ofList =
      id.text :: words := by
  have hid : Text.IsWord id.text := Text.Decimal.isWord_signed id.toInt
  have hspace : Text.isBlank ' ' = true := by decide
  have hsplit : (id.text ++ " " ++ " ".intercalate words).toList =
      id.text.toList ++ ' ' :: (" ".intercalate words).toList := by
    simp [String.toList_append]
  rw [hsplit, Text.words_append_cons hspace, hid.words_eq, Text.words_intercalate h]
  simp

/-- The line asks for the document of the id and the words if these are tokens. -/
theorem parse_indexLine {words : List String} (h : ∀ word ∈ words, Text.IsWord word)
    (id : DocId) :
    parse (indexLine id words) =
      match checkTokens words with
      | .ok tokens => .ok (.index ⟨id, tokens⟩)
      | .error fault => .error (.document fault) := by
  rw [indexLine, parse_index, words_arguments h, documentOf, checkId, DocId.ofText?_text]
  cases checkTokens words <;> rfl

end Command

end TokenSearch
