import TokenSearch.Session
import TokenSearch.Text.Utf8.RoundTrip

/-!
# Lines

Cutting bytes into lines loses nothing, and what is cut off behind a line feed is cut up in the
same way on its own. In UTF-8 only a line feed has the byte of a line feed, so the lines of the
bytes of a text are the bytes of the lines of the text.
-/

namespace TokenSearch.Session

open Text.Utf8

/-- Put a beginning in front of the first line. -/
def extendFirst {α : Type} (start : List α) : List (List α) → List (List α)
  | [] => [start]
  | line :: rest => (start ++ line) :: rest

theorem lines_feed (bs : List UInt8) : lines (10 :: bs) = [10] :: lines bs := rfl

theorem lines_cons {b : UInt8} (h : b ≠ 10) (bs : List UInt8) :
    lines (b :: bs) = extendFirst [b] (lines bs) := by
  rw [lines, if_neg h]
  cases lines bs <;> rfl

/-- The lines make up the bytes. -/
theorem flatten_lines (bs : List UInt8) : (lines bs).flatten = bs := by
  induction bs with
  | nil => rfl
  | cons b bs ih =>
    by_cases hb : b = 10
    · subst hb
      rw [lines_feed, List.flatten_cons, ih]
      rfl
    · rw [lines_cons hb]
      cases hlines : lines bs with
      | nil =>
        rw [hlines] at ih
        rw [← ih]
        rfl
      | cons line rest =>
        rw [hlines] at ih
        rw [← ih]
        rfl

/-- Bytes without a line feed begin one line. -/
theorem lines_append_of_not_mem {start : List UInt8} (hne : start ≠ []) (h : 10 ∉ start)
    (bs : List UInt8) : lines (start ++ bs) = extendFirst start (lines bs) := by
  induction start with
  | nil => exact absurd rfl hne
  | cons b start ih =>
    obtain ⟨hb, hstart⟩ := List.ne_and_not_mem_of_not_mem_cons h
    rw [List.cons_append, lines_cons hb.symm]
    cases start with
    | nil => rfl
    | cons b' start =>
      rw [ih (List.cons_ne_nil b' start) hstart]
      cases lines bs <;> rfl

/-- Lines go on anew behind a line feed. -/
theorem lines_append {start : List UInt8} (h : start.getLast? = some 10) (bs : List UInt8) :
    lines (start ++ bs) = lines start ++ lines bs := by
  induction start with
  | nil => cases h
  | cons b start ih =>
    cases start with
    | nil =>
      obtain rfl : b = 10 := Option.some.inj h
      rfl
    | cons b' start =>
      rw [List.getLast?_cons_cons] at h
      have ih := ih h
      by_cases hb : b = 10
      · subst hb
        rw [List.cons_append, lines_feed, ih, lines_feed]
        rfl
      · rw [List.cons_append, lines_cons hb, ih, lines_cons hb]
        cases hlines : lines (b' :: start) with
        | nil =>
          have hflat := flatten_lines (b' :: start)
          rw [hlines] at hflat
          cases hflat
        | cons line rest => rfl

/-- The lines before a line are the lines of the bytes before it. -/
theorem lines_flatten_of_append {bs : List UInt8} {before after : List (List UInt8)}
    (h : lines bs = before ++ after) (hne : after ≠ []) : lines before.flatten = before := by
  induction bs generalizing before with
  | nil =>
    obtain ⟨rfl, -⟩ := List.nil_eq_append_iff.1 h
    rfl
  | cons b bs ih =>
    cases before with
    | nil => rfl
    | cons first before =>
      by_cases hb : b = 10
      · subst hb
        rw [lines_feed, List.cons_append] at h
        obtain ⟨rfl, hrest⟩ := List.cons.inj h
        rw [List.flatten_cons, List.singleton_append, lines_feed, ih hrest]
      · rw [lines_cons hb] at h
        cases hlines : lines bs with
        | nil =>
          rw [hlines] at h
          obtain ⟨-, hrest⟩ := List.cons.inj h
          exact absurd (List.append_eq_nil_iff.1 hrest.symm).2 hne
        | cons line rest =>
          rw [hlines] at h
          obtain ⟨rfl, rfl⟩ := List.cons.inj h
          have hbefore : lines (line :: before).flatten = line :: before := ih hlines
          rw [List.flatten_cons] at hbefore ⊢
          rw [List.append_assoc, List.singleton_append, lines_cons hb, hbefore]
          rfl

/-- Cut a text into lines, each with the line feed that ends it. -/
def textLines : List Char → List (List Char)
  | [] => []
  | c :: cs =>
    if c = '\n' then [c] :: textLines cs
    else match textLines cs with
      | [] => [[c]]
      | line :: rest => (c :: line) :: rest

theorem textLines_cons {c : Char} (h : c ≠ '\n') (cs : List Char) :
    textLines (c :: cs) = extendFirst [c] (textLines cs) := by
  rw [textLines, if_neg h]
  cases textLines cs <;> rfl

/-- Only a line feed is written with the byte of a line feed. -/
theorem feed_not_mem_encodeChar {c : Char} (h : c ≠ '\n') : 10 ∉ encodeChar c := by
  have hfeed {n : Nat} (hn : n < 256) (hne : n ≠ 10) : (10 : UInt8) ≠ n.toUInt8 := by
    intro heq
    exact hne (by rw [← toNat_toUInt8 hn, ← heq]; rfl)
  have hc : c.toNat ≠ 10 := fun hc => h (Char.toNat_inj.1 hc)
  have hrange := toNat_range c
  unfold encodeChar
  simp only
  split
  · simpa using hfeed (by omega) hc
  · split
    · simp only [List.mem_cons, List.not_mem_nil, or_false, not_or]
      exact ⟨hfeed (by omega) (by omega), hfeed (by omega) (by omega)⟩
    · split
      · simp only [List.mem_cons, List.not_mem_nil, or_false, not_or]
        exact ⟨hfeed (by omega) (by omega), hfeed (by omega) (by omega),
          hfeed (by omega) (by omega)⟩
      · simp only [List.mem_cons, List.not_mem_nil, or_false, not_or]
        exact ⟨hfeed (by omega) (by omega), hfeed (by omega) (by omega),
          hfeed (by omega) (by omega), hfeed (by omega) (by omega)⟩

theorem encodeChar_ne_nil (c : Char) : encodeChar c ≠ [] := by
  unfold encodeChar
  simp only
  repeat' split
  all_goals exact List.cons_ne_nil _ _

/-- The lines of the bytes of a text are the bytes of its lines. -/
theorem lines_encode (cs : List Char) : lines (encode cs) = (textLines cs).map encode := by
  induction cs with
  | nil => rfl
  | cons c cs ih =>
    have hencode : encode (c :: cs) = encodeChar c ++ encode cs := List.flatMap_cons
    by_cases hc : c = '\n'
    · subst hc
      have hfeed : encodeChar '\n' = [10] := rfl
      rw [hencode, hfeed, List.singleton_append, lines_feed, ih]
      rfl
    · rw [hencode, lines_append_of_not_mem (encodeChar_ne_nil c) (feed_not_mem_encodeChar hc), ih,
        textLines_cons hc]
      cases textLines cs with
      | nil => simp [extendFirst, encode]
      | cons line rest => simp [extendFirst, encode]

end TokenSearch.Session
