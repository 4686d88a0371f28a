import TokenSearch.Text.CodeRange

/-!
# Blanks and words

A blank is a character with the Unicode property `White_Space`. Blanks separate the words of a
line and may stand anywhere between the parts of an expression.
-/

namespace TokenSearch.Text

/-- The code points of the blanks. -/
def blankRanges : List CodeRange :=
  [(0x0009, 0x000D), (0x0020, 0x0020), (0x0085, 0x0085), (0x00A0, 0x00A0),
   (0x1680, 0x1680), (0x2000, 0x200A), (0x2028, 0x2029), (0x202F, 0x202F),
   (0x205F, 0x205F), (0x3000, 0x3000)]

/-- A blank is a character with the property `White_Space`. -/
def isBlank (c : Char) : Bool := CodeRange.covers blankRanges c.toNat

/-- The maximal runs of characters that are no blanks, in order. -/
def words (cs : List Char) : List (List Char) :=
  (cs.splitOnP isBlank).filter (!·.isEmpty)

/-- A text without the blanks at both ends. -/
def trim (cs : List Char) : List Char :=
  ((cs.dropWhile isBlank).reverse.dropWhile isBlank).reverse

/-- A word has characters, and none of them is a blank. -/
def IsWord (s : String) : Prop := s.toList ≠ [] ∧ ∀ c ∈ s.toList, isBlank c = false

instance (s : String) : Decidable (IsWord s) :=
  decidable_of_iff (s.toList ≠ [] ∧ s.toList.all (!isBlank ·) = true) (by simp [IsWord])

/-- No piece between the blanks of a text has a blank. -/
theorem isBlank_of_mem_splitOnP {cs piece : List Char} (h : piece ∈ cs.splitOnP isBlank) :
    ∀ c ∈ piece, isBlank c = false := by
  induction cs generalizing piece with
  | nil =>
    rw [List.splitOnP_nil, List.mem_singleton] at h
    rw [h]
    exact nofun
  | cons d cs ih =>
    rw [List.splitOnP_cons_eq_if_modifyHead] at h
    split at h
    · rcases List.mem_cons.1 h with rfl | h
      · exact nofun
      · exact ih h
    · rename_i hd
      cases hpieces : cs.splitOnP isBlank with
      | nil => exact absurd hpieces (List.splitOnP_ne_nil isBlank cs)
      | cons first pieces =>
        rw [hpieces] at ih h
        rcases List.mem_cons.1 h with rfl | h
        · exact List.forall_mem_cons.2 ⟨Bool.not_eq_true _ ▸ hd, ih List.mem_cons_self⟩
        · exact ih (List.mem_cons_of_mem first h)

/-- The words of a text are words. -/
theorem isWord_of_mem_words {cs w : List Char} (h : w ∈ words cs) : IsWord (String.ofList w) := by
  obtain ⟨hpiece, hne⟩ := List.mem_filter.1 h
  rw [IsWord, String.toList_ofList]
  exact ⟨by simpa using hne, isBlank_of_mem_splitOnP hpiece⟩

/-- A text falls into words at any of its blanks. -/
theorem words_append_cons {c : Char} (hc : isBlank c = true) (cs ds : List Char) :
    words (cs ++ c :: ds) = words cs ++ words ds := by
  rw [words, List.splitOnP_append_cons cs ds hc, List.filter_append, ← words, ← words]

/-- Blanks at the end make no words. -/
theorem words_append_blanks (cs : List Char) {blanks : List Char}
    (h : ∀ c ∈ blanks, isBlank c = true) : words (cs ++ blanks) = words cs := by
  induction blanks generalizing cs with
  | nil => rw [List.append_nil]
  | cons c blanks ih =>
    obtain ⟨hc, hblanks⟩ := List.forall_mem_cons.1 h
    have hnone : words blanks = [] := ih [] hblanks
    rw [words_append_cons hc, hnone, List.append_nil]

/-- A word is the only word of its text. -/
theorem IsWord.words_eq {s : String} (h : IsWord s) : words s.toList = [s.toList] := by
  rw [words, List.splitOnP_eq_singleton h.2]
  simpa using h.1

/-- Words with spaces between them are the words of the text that they make. -/
theorem words_intercalate {ws : List String} (h : ∀ w ∈ ws, IsWord w) :
    words (" ".intercalate ws).toList = ws.map String.toList := by
  induction ws with
  | nil => rfl
  | cons w ws ih =>
    obtain ⟨hw, hws⟩ := List.forall_mem_cons.1 h
    cases ws with
    | nil => exact hw.words_eq
    | cons second ws =>
      have hspace : isBlank ' ' = true := by decide
      have hsplit : (" ".intercalate (w :: second :: ws)).toList =
          w.toList ++ ' ' :: (" ".intercalate (second :: ws)).toList := by
        simp [String.intercalate_cons_cons]
      rw [hsplit, words_append_cons hspace, hw.words_eq, ih hws]
      rfl

end TokenSearch.Text
